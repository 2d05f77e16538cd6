import SchemaLoom.Yaml.Tag
import SchemaLoom.Yaml.Token

/-!
# From text to tokens

A step passes over blanks and comments and reads one token. Two things reach back or ahead: a column
left of the current block closes it, and a `:` makes the last possible key a key, which puts the
key's mark, and perhaps the beginning of a block mapping, before tokens already read. A key must end
on its line, within 1024 bytes.
-/

namespace SchemaLoom.Yaml

/-- A token that becomes a key when a `:` follows. -/
structure PossibleKey where
  /-- The number of tokens before it. -/
  position : Nat
  /-- Whether nothing but a key can stand here. -/
  required : Bool
  cell : Cell

structure Lexer where
  rest : List Cell
  /-- The tokens read so far, the last one first. -/
  tokens : List Token
  /-- The column of the current block collection, `-1` outside of any. -/
  indent : Int
  /-- The columns of the block collections around it. -/
  outer : List Int
  /-- Whether a key may begin here. -/
  keyAllowed : Bool
  /-- The possible key of this flow level. -/
  possible : Option PossibleKey
  /-- The possible keys of the flow levels around this one. -/
  levels : List (Option PossibleKey)

namespace Lexer

def start (cells : List Cell) : Lexer :=
  ⟨cells, [], -1, [], true, none, []⟩

/-- Whether the text stands inside brackets or braces. -/
def inFlow (s : Lexer) : Bool := !s.levels.isEmpty

def push (token : Token) (s : Lexer) : Lexer := { s with tokens := token :: s.tokens }

/-- Puts tokens, given in their order, behind the first `position` tokens. -/
def insert (position : Nat) (tokens : List Token) (s : Lexer) : Lexer :=
  let behind := s.tokens.length - position
  { s with tokens := s.tokens.take behind ++ tokens.reverse ++ s.tokens.drop behind }

/-- Passes over spaces, comments and line breaks, and over a byte order mark that begins a line.
Outside of brackets a line break allows a key, and a tab may not stand where a key may begin. -/
def skipBlank (flow : Bool) : Bool → Bool → List Cell → Bool × List Cell
  | allowed, _, [] => (allowed, [])
  | allowed, comment, c :: rest =>
    if isBreak c.char then skipBlank flow (allowed || !flow) false rest
    else if comment || c.char = '#' then skipBlank flow allowed true rest
    else if c.char = ' ' || (c.char = '\t' && (flow || !allowed)) ||
        (c.char = '\ufeff' && c.column = 0) then skipBlank flow allowed false rest
    else (allowed, c :: rest)

def toNextToken (s : Lexer) : Lexer :=
  let (allowed, rest) := skipBlank s.inFlow s.keyAllowed false s.rest
  { s with keyAllowed := allowed, rest }

/-- Gives up a possible key. A required one cannot be given up. -/
def dropKey (s : Lexer) : Option Lexer :=
  match s.possible with
  | some key => if key.required then none else some { s with possible := none }
  | none => some s

/-- Whether a key that began at a cell may still be open at another cell. -/
def PossibleKey.fresh (key : PossibleKey) (at_ : Cell) : Bool :=
  key.cell.line == at_.line && at_.index ≤ key.cell.index + 1024

/-- A possible key of some level, given up when it is too far behind. -/
def refresh (at_ : Cell) (key : Option PossibleKey) : Option (Option PossibleKey) :=
  match key with
  | none => some none
  | some key =>
    if PossibleKey.fresh key at_ then some (some key)
    else if key.required then none
    else some none

/-- Gives up the possible keys that are too far behind. -/
def dropStaleKeys (at_ : Cell) (s : Lexer) : Option Lexer := do
  let possible ← refresh at_ s.possible
  let levels ← s.levels.mapM (refresh at_)
  pure { s with possible, levels }

/-- Remembers that the token to be read at a cell may be a key. -/
def saveKey (cell : Cell) (s : Lexer) : Option Lexer :=
  if s.keyAllowed then do
    let required := !s.inFlow && s.indent == (cell.column : Int)
    let s ← s.dropKey
    pure { s with possible := some ⟨s.tokens.length, required, cell⟩ }
  else some s

/-- Closes the block collections right of a column. -/
def closeBlocks (column : Int) (tokens : List Token) (indent : Int) :
    List Int → List Token × Int × List Int
  | [] => (tokens, indent, [])
  | i :: outer =>
    if indent > column then closeBlocks column (.blockEnd :: tokens) i outer
    else (tokens, indent, i :: outer)

def unroll (column : Int) (s : Lexer) : Lexer :=
  if s.inFlow then s
  else
    let (tokens, indent, outer) := closeBlocks column s.tokens s.indent s.outer
    { s with tokens, indent, outer }

/-- Opens a block collection at a column right of the current one, its mark standing behind the
first `position` tokens. -/
def roll (column : Nat) (position : Nat) (token : Token) (s : Lexer) : Lexer :=
  if s.inFlow || s.indent ≥ (column : Int) then s
  else { s.insert position [token] with indent := column, outer := s.indent :: s.outer }

/-- Ends everything that is open. -/
def finish (s : Lexer) : Option (List Token) := do
  let s ← (s.unroll (-1)).dropKey
  pure s.tokens.reverse

/-- A mark that ends all blocks: a document boundary or a directive. -/
def topLevel (s : Lexer) (tokens : List Token) (rest : List Cell) : Option Lexer := do
  let s ← (s.unroll (-1)).dropKey
  pure { s with tokens := tokens.reverse ++ s.tokens, keyAllowed := false, rest }

def openFlow (token : Token) (c : Cell) (rest : List Cell) (s : Lexer) : Option Lexer := do
  let s ← s.saveKey c
  pure { s.push token with
    levels := s.possible :: s.levels, possible := none, keyAllowed := true, rest }

def closeFlow (token : Token) (rest : List Cell) (s : Lexer) : Option Lexer := do
  let s ← s.dropKey
  let s := match s.levels with
    | [] => s
    | possible :: levels => { s with possible, levels }
  pure { s.push token with keyAllowed := false, rest }

def readComma (rest : List Cell) (s : Lexer) : Option Lexer := do
  let s ← s.dropKey
  pure { s.push .comma with keyAllowed := true, rest }

def readDash (c : Cell) (rest : List Cell) (s : Lexer) : Option Lexer := do
  if !s.inFlow && !s.keyAllowed then none
  let s ← (s.roll c.column s.tokens.length .blockSequence).dropKey
  pure { s.push .dash with keyAllowed := true, rest }

def readKey (c : Cell) (rest : List Cell) (s : Lexer) : Option Lexer := do
  if !s.inFlow && !s.keyAllowed then none
  let s ← (s.roll c.column s.tokens.length .blockMapping).dropKey
  pure { s.push .key with keyAllowed := !s.inFlow, rest }

def readValue (c : Cell) (rest : List Cell) (s : Lexer) : Option Lexer :=
  match s.possible with
  | some key =>
    let s := (s.insert key.position [.key]).roll key.cell.column key.position .blockMapping
    some { s.push .value with possible := none, keyAllowed := false, rest }
  | none =>
    if !s.inFlow && !s.keyAllowed then none
    else
      let s := s.roll c.column s.tokens.length .blockMapping
      some { s.push .value with keyAllowed := !s.inFlow, rest }

/-- A property or scalar that may be a key. -/
def readContent (c : Cell) (s : Lexer) (read : Lexer → Option (Token × List Cell)) :
    Option Lexer := do
  let s ← s.saveKey c
  let (token, rest) ← read s
  pure { s.push token with keyAllowed := false, rest }

/-- Whether a plain scalar may begin with a character. -/
def beginsPlain (flow : Bool) (c : Cell) (rest : List Cell) : Bool :=
  !(isWhite c.char || isBreak c.char ||
      ['-', '?', ':', ',', '[', ']', '{', '}', '#', '&', '*', '!', '|', '>', '\'', '"', '%', '@',
        '`'].contains
        c.char) ||
    (c.char == '-' && !(rest.head?.any fun d => isWhite d.char)) ||
    (!flow && (c.char == '?' || c.char == ':') && !endsWord rest)

/-- Reads the token that begins at a cell. -/
def readToken (c : Cell) (rest : List Cell) (s : Lexer) : Option Lexer :=
  let here := c :: rest
  if c.column == 0 && c.char == '%' then do
    let (directive, rest) ← readDirective rest
    match directive with
    | .version major minor => s.topLevel [.version major minor] rest
    | .tagShorthand handle expansion => s.topLevel [.tagShorthand handle expansion] rest
  else if atMark '-' here then s.topLevel [.documentStart] (rest.drop 2)
  else if atMark '.' here then s.topLevel [.documentEnd] (rest.drop 2)
  else if c.char == '[' then s.openFlow .openBracket c rest
  else if c.char == '{' then s.openFlow .openBrace c rest
  else if c.char == ']' then s.closeFlow .closeBracket rest
  else if c.char == '}' then s.closeFlow .closeBrace rest
  else if c.char == ',' then s.readComma rest
  else if c.char == '-' && endsWord rest then s.readDash c rest
  else if c.char == '?' && (s.inFlow || endsWord rest) then s.readKey c rest
  else if c.char == ':' && (s.inFlow || endsWord rest) then s.readValue c rest
  else if c.char == '*' then
    s.readContent c fun _ => (readAnchor rest).map fun (name, rest) => (.alias name, rest)
  else if c.char == '&' then
    s.readContent c fun _ => (readAnchor rest).map fun (name, rest) => (.anchor name, rest)
  else if c.char == '!' then
    s.readContent c fun s =>
      (readTag s.inFlow here).map fun (handle, suffix, rest) => (.tag handle suffix, rest)
  else if (c.char == '|' || c.char == '>') && !s.inFlow then do
    let s ← s.dropKey
    let (text, rest) ← readBlockScalar (c.char == '|') s.indent rest
    pure { s.push (.scalar false text) with keyAllowed := true, rest }
  else if c.char == '\'' || c.char == '"' then
    s.readContent c fun _ =>
      (readQuoted (c.char == '\'') 0 Gap.none rest).map fun (text, rest) =>
        (.scalar false text, rest)
  else if beginsPlain s.inFlow c rest then do
    let s ← s.saveKey c
    let (text, afterBreak, rest) ← readPlain s.inFlow (s.indent + 1).toNat none here
    pure { s.push (.scalar true text) with keyAllowed := afterBreak, rest }
  else none

/-- Reads tokens to the end of the text. Every token takes a cell, so the number of cells bounds the
number of steps. -/
def run : Nat → Lexer → Option (List Token)
  | 0, _ => none
  | bound + 1, s =>
    let s := s.toNextToken
    match s.rest with
    | [] => s.finish
    | c :: rest => do
      let s ← s.dropStaleKeys c
      let s ← (s.unroll c.column).readToken c rest
      run bound s

end Lexer

/-- The tokens of a text, or nothing when it is malformed. -/
def tokens? (cs : List Char) : Option (List Token) := do
  let cells ← cells? cs
  Lexer.run (cells.length + 1) (Lexer.start cells)

end SchemaLoom.Yaml
