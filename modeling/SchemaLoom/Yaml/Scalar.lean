import SchemaLoom.Yaml.Cell

/-!
# The text of scalars

Inside quoted and plain scalars the blanks between two words of a line stay as they are, and a line
break between words becomes a space; of several breaks the first is dropped and the others stay.
Block scalars keep their lines, less the indentation; a folded one joins neighbouring lines unless
one of them begins with a blank.
-/

namespace SchemaLoom.Yaml

/-- What stands between two words of a scalar: blanks on a line, or the breaks after it. -/
inductive Gap where
  | white (chars : List Char)
  | breaks (first more : List Char)

namespace Gap

def none : Gap := .white []

/-- Blanks around a line break do not count. -/
def add (g : Gap) (c : Char) : Gap :=
  match g with
  | .white cs => if isBreak c then .breaks [c] [] else .white (cs ++ [c])
  | .breaks first more => if isBreak c then .breaks first (more ++ [c]) else .breaks first more

def text : Gap → List Char
  | .white cs => cs
  | .breaks first more =>
    if first = ['\n'] then (if more.isEmpty then [' '] else more) else first ++ more

def isBreaks : Gap → Bool
  | .white _ => false
  | .breaks _ _ => true

end Gap

/-- Puts characters, or the bytes of a tag, before those read behind them. -/
def prepend {α β : Type} (cs : List α) : Option (List α × β) → Option (List α × β)
  | some (text, rest) => some (cs ++ text, rest)
  | none => none

def hexDigit? (c : Char) : Option Nat :=
  if '0' ≤ c && c ≤ '9' then some (c.toNat - 48)
  else if 'a' ≤ c && c ≤ 'f' then some (c.toNat - 87)
  else if 'A' ≤ c && c ≤ 'F' then some (c.toNat - 55)
  else none

/-- The value of exactly `count` hexadecimal digits. -/
def hexValue? : Nat → List Cell → Option Nat
  | 0, _ => some 0
  | _ + 1, [] => none
  | count + 1, c :: rest => do
    let d ← hexDigit? c.char
    let n ← hexValue? count rest
    pure (d * Nat.pow 16 count + n)

/-- What stands behind a backslash: a character, or the number of digits of its code. -/
inductive Escape where
  | char (c : Char)
  | code (digits : Nat)

def escape? (c : Char) : Option Escape :=
  match c with
  | '0' => some (.char '\x00')
  | 'a' => some (.char '\x07')
  | 'b' => some (.char '\x08')
  | 't' => some (.char '\t')
  | '\t' => some (.char '\t')
  | 'n' => some (.char '\n')
  | 'v' => some (.char '\x0b')
  | 'f' => some (.char '\x0c')
  | 'r' => some (.char '\r')
  | 'e' => some (.char '\x1b')
  | ' ' => some (.char ' ')
  | '"' => some (.char '"')
  | '/' => some (.char '/')
  | '\\' => some (.char '\\')
  | 'N' => some (.char '\u0085')
  | '_' => some (.char '\u00a0')
  | 'L' => some (.char '\u2028')
  | 'P' => some (.char '\u2029')
  | 'x' => some (.code 2)
  | 'u' => some (.code 4)
  | 'U' => some (.code 8)
  | _ => none

/-- The character with a code, if there is one. -/
def codePoint? (n : Nat) : Option Char :=
  if (0xD800 ≤ n && n ≤ 0xDFFF) || n > 0x10FFFF then none else some (Char.ofNat n)

/-- A quoted scalar behind its opening quote, up to and with its closing one. The first `skip` cells
belong to an escape. -/
def readQuoted (single : Bool) : Nat → Gap → List Cell → Option (List Char × List Cell)
  | _, _, [] => none
  | skip + 1, gap, _ :: rest => readQuoted single skip gap rest
  | 0, gap, c :: rest =>
    if isWhite c.char || isBreak c.char then readQuoted single 0 (gap.add c.char) rest
    else if atDocumentMark (c :: rest) then none
    else if single then
      if c.char = '\'' then
        if nextIn ['\''] rest then prepend (gap.text ++ ['\'']) (readQuoted single 1 Gap.none rest)
        else some (gap.text, rest)
      else prepend (gap.text ++ [c.char]) (readQuoted single 0 Gap.none rest)
    else if c.char = '"' then some (gap.text, rest)
    else if c.char = '\\' then
      match rest.head? with
      | none => none
      | some e =>
        if isBreak e.char then prepend gap.text (readQuoted single 1 (.breaks [] []) rest)
        else match escape? e.char with
          | none => none
          | some (.char d) => prepend (gap.text ++ [d]) (readQuoted single 1 Gap.none rest)
          | some (.code digits) =>
            match (hexValue? digits (rest.drop 1)).bind codePoint? with
            | none => none
            | some d => prepend (gap.text ++ [d]) (readQuoted single (digits + 1) Gap.none rest)
    else prepend (gap.text ++ [c.char]) (readQuoted single 0 Gap.none rest)

/-- A plain scalar and whether a line break stands behind it. Inside brackets, `flow`, the marks of
flow collections end it; outside, a line that begins left of `indent` does. -/
def readPlain (flow : Bool) (indent : Nat) :
    Option Gap → List Cell → Option (List Char × Bool × List Cell)
  | gap, [] => some ([], (gap.map Gap.isBreaks).getD false, [])
  | gap, c :: rest =>
    let afterBreak := (gap.map Gap.isBreaks).getD false
    if isWhite c.char || isBreak c.char then
      if afterBreak && c.char == '\t' && c.column < indent then none
      else readPlain flow indent (some ((gap.getD Gap.none).add c.char)) rest
    else if gap.isSome &&
        ((!flow && c.column < indent) || atDocumentMark (c :: rest) || c.char == '#') then
      some ([], afterBreak, c :: rest)
    else if flow && c.char == ':' && nextIn [',', '?', '[', ']', '{', '}'] rest then none
    else if (c.char == ':' && endsWord rest) ||
        (flow && [',', '[', ']', '{', '}'].contains c.char) then
      some ([], afterBreak, c :: rest)
    else
      prepend ((gap.getD Gap.none).text ++ [c.char]) (readPlain flow indent none rest)

/-- What happens to the line breaks at the end of a block scalar. -/
inductive Chomping where
  | strip
  | clip
  | keep
deriving DecidableEq

structure BlockHeader where
  chomping : Chomping
  /-- The stated indentation, zero when it is to be found from the text. -/
  increment : Nat

def chomping? (c : Char) : Option Chomping :=
  if c = '+' then some .keep else if c = '-' then some .strip else none

/-- The chomping and indentation marks behind `|` or `>`, in either order. -/
def readBlockMarks : List Cell → Option (BlockHeader × List Cell)
  | [] => some (⟨.clip, 0⟩, [])
  | c :: rest =>
    match chomping? c.char with
    | some chomping =>
      match rest with
      | d :: rest' =>
        if d.char.isDigit then
          if d.char = '0' then none else some (⟨chomping, d.char.toNat - 48⟩, rest')
        else some (⟨chomping, 0⟩, rest)
      | [] => some (⟨chomping, 0⟩, [])
    | none =>
      if c.char.isDigit then
        if c.char = '0' then none
        else match rest with
          | d :: rest' =>
            match chomping? d.char with
            | some chomping => some (⟨chomping, c.char.toNat - 48⟩, rest')
            | none => some (⟨.clip, c.char.toNat - 48⟩, rest)
          | [] => some (⟨.clip, c.char.toNat - 48⟩, [])
      else some (⟨.clip, 0⟩, c :: rest)

/-- The width of the widest run of spaces up to the first word; a tab may not stand there. -/
def leadingWidth : Nat → List Cell → Option Nat
  | width, [] => some width
  | width, c :: rest =>
    if c.char = ' ' then leadingWidth (max width (c.column + 1)) rest
    else if c.char = '\t' then none
    else if isBreak c.char then leadingWidth width rest
    else some width

/-- Where a block scalar is being read: inside a line, or in the margin before one. -/
structure BlockState where
  inLine : Bool
  /-- The break that ended the last line. -/
  lineBreak : List Char
  /-- The breaks of the empty lines after it. -/
  breaks : List Char
  /-- Whether the last line began with a blank. -/
  indented : Bool

def BlockState.start : BlockState := ⟨false, [], [], false⟩

/-- What ends the scalar's text. -/
def BlockState.tail (chomping : Chomping) (s : BlockState) : List Char :=
  match chomping with
  | .strip => []
  | .clip => s.lineBreak
  | .keep => s.lineBreak ++ s.breaks

/-- What stands between the last line and one that begins with `c`. -/
def BlockState.joint (literal : Bool) (c : Char) (s : BlockState) : List Char :=
  if !literal && s.lineBreak == ['\n'] && !s.indented && !isWhite c then
    if s.breaks.isEmpty then [' '] else s.breaks
  else s.lineBreak ++ s.breaks

/-- The lines of a block scalar whose text begins at column `indent`. -/
def readBlock (literal : Bool) (indent : Nat) (chomping : Chomping) :
    BlockState → List Cell → Option (List Char × List Cell)
  | s, [] => some (s.tail chomping, [])
  | s, c :: rest =>
    if s.inLine then
      if isBreak c.char then
        readBlock literal indent chomping
          { s with inLine := false, lineBreak := [c.char], breaks := [] } rest
      else prepend [c.char] (readBlock literal indent chomping s rest)
    else if isBreak c.char then
      readBlock literal indent chomping { s with breaks := s.breaks ++ [c.char] } rest
    else if c.column < indent then
      if c.char = ' ' then readBlock literal indent chomping s rest
      else if c.char = '\t' then none
      else some (s.tail chomping, c :: rest)
    else
      prepend (s.joint literal c.char ++ [c.char])
        (readBlock literal indent chomping ⟨true, [], [], isWhite c.char⟩ rest)

/-- A block scalar behind its `|` or `>`, inside a collection at the column `parent`, which is `-1`
outside of any. -/
def readBlockScalar (literal : Bool) (parent : Int) (cells : List Cell) :
    Option (List Char × List Cell) := do
  let (header, cells) ← readBlockMarks cells
  let cells ← finishLine cells
  let indent ←
    if header.increment > 0 then pure ((max parent 0).toNat + header.increment)
    else (leadingWidth 0 cells).map fun width => max (max width (parent + 1).toNat) 1
  readBlock literal indent header.chomping BlockState.start cells

end SchemaLoom.Yaml
