/-!
# Characters with their places

YAML is laid out by columns, so every character of a text carries its line, its column and the
number of bytes before it. Line breaks of any spelling are one line feed; the two separators U+2028
and U+2029 break lines as well and stay what they are.
-/

namespace SchemaLoom.Yaml

structure Cell where
  char : Char
  line : Nat
  column : Nat
  index : Nat
deriving Repr

/-- Characters that may stand in a text. -/
def isAllowed (c : Char) : Bool :=
  let n := c.toNat
  n == 0x09 || n == 0x0A || n == 0x0D || (0x20 ≤ n && n ≤ 0x7E) || n == 0x85 ||
    (0xA0 ≤ n && n ≤ 0xD7FF) || (0xE000 ≤ n && n ≤ 0xFFFD) || 0x10000 ≤ n

/-- Turns every carriage return, with or without a line feed, and every next line character into a
line feed. -/
def unifyBreaks : List Char → List Char
  | [] => []
  | '\r' :: '\n' :: cs => '\n' :: unifyBreaks cs
  | c :: cs => (if c = '\r' || c = '\u0085' then '\n' else c) :: unifyBreaks cs

def isBreak (c : Char) : Bool :=
  c == '\n' || c == '\u2028' || c == '\u2029'

def isWhite (c : Char) : Bool :=
  c == ' ' || c == '\t'

/-- Letters, digits, `_` and `-`. -/
def isWord (c : Char) : Bool :=
  c.isAlphanum || c == '_' || c == '-'

def placed (line column index : Nat) : List Char → List Cell
  | [] => []
  | c :: cs =>
    ⟨c, line, column, index⟩ ::
      if isBreak c then placed (line + 1) 0 (index + c.utf8Size) cs
      else placed line (column + 1) (index + c.utf8Size) cs

/-- The cells of a text, or nothing when a character may not stand in it. -/
def cells? (cs : List Char) : Option (List Cell) :=
  if cs.all isAllowed then some (placed 0 0 0 (unifyBreaks cs)) else none

/-- Whether a word ends here: at a blank, at a line break or at the end of the text. -/
def endsWord : List Cell → Bool
  | [] => true
  | c :: _ => isWhite c.char || isBreak c.char

/-- Whether the next character is one of those listed. -/
def nextIn (chars : List Char) : List Cell → Bool
  | [] => false
  | c :: _ => chars.contains c.char

/-- Whether three of the given character stand alone at the beginning of a line. -/
def atMark (char : Char) : List Cell → Bool
  | a :: b :: c :: rest =>
    a.column == 0 && a.char == char && b.char == char && c.char == char && endsWord rest
  | _ => false

/-- Whether a document begins or ends here. -/
def atDocumentMark (cells : List Cell) : Bool :=
  atMark '-' cells || atMark '.' cells

/-- Passes over spaces and tabs. -/
def skipWhite (cells : List Cell) : List Cell :=
  cells.dropWhile fun c => isWhite c.char

/-- Passes over blanks, a comment and the line break behind them; nothing when more stands on the
line. -/
def finishLine (cells : List Cell) : Option (List Cell) :=
  let cells := skipWhite cells
  let cells := if nextIn ['#'] cells then cells.dropWhile (fun c => !isBreak c.char) else cells
  match cells with
  | [] => some []
  | c :: rest => if isBreak c.char then some rest else none

end SchemaLoom.Yaml
