import SchemaLoom.Decimal.Binary64
import SchemaLoom.Toml.Value

/-!
# Reading TOML

A text is read line by line into one table. A line holds a header, a key with its value, a comment
or nothing. Values may reach over several lines. Dates and times must exist, and a number may not be
too large to be held.
-/

namespace SchemaLoom.Toml

/-- A reader takes the beginning of a text and leaves the rest. -/
abbrev Reader (α : Type) := List Char → Option (α × List Char)

def isWhite (c : Char) : Bool := c == ' ' || c == '\t'

def skipWhite (cs : List Char) : List Char := cs.dropWhile isWhite

/-- Characters of texts and comments: no control characters but the tab. -/
def isVisible (c : Char) : Bool := c == '\t' || (0x20 ≤ c.toNat && c.toNat ≠ 0x7F)

/-- A line break, with or without a carriage return. -/
def lineBreak? : List Char → Option (List Char)
  | '\n' :: rest => some rest
  | '\r' :: '\n' :: rest => some rest
  | _ => none

/-- Passes over a comment, if one begins here. -/
def skipComment (cs : List Char) : List Char :=
  match cs with
  | '#' :: rest => rest.dropWhile isVisible
  | _ => cs

/-- What may stand behind a value or header: blanks, a comment, and the end of the line or text. -/
def finishLine (cs : List Char) : Option (List Char) :=
  match skipComment (skipWhite cs) with
  | [] => some []
  | rest => lineBreak? rest

/-- Passes over blanks, comments and line breaks inside an array. -/
def skipLines : Bool → List Char → List Char
  | _, [] => []
  | true, c :: cs => if isVisible c then skipLines true cs else skipLines false (c :: cs)
  | false, c :: cs =>
    if isWhite c || c == '\n' then skipLines false cs
    else if c == '\r' && cs.head? == some '\n' then skipLines false cs
    else if c == '#' then skipLines true cs
    else c :: cs
termination_by inComment cs => (cs.length, if inComment then 1 else 0)

def hexDigit? (c : Char) : Option Nat :=
  if '0' ≤ c && c ≤ '9' then some (c.toNat - 48)
  else if 'a' ≤ c && c ≤ 'f' then some (c.toNat - 87)
  else if 'A' ≤ c && c ≤ 'F' then some (c.toNat - 55)
  else none

def hexValue? (cs : List Char) : Option Nat :=
  cs.foldl (fun n c => do pure ((← n) * 16 + (← hexDigit? c))) (some 0)

/-- The character that a number of hexadecimal digits name, and the number of characters that
stand for it, the mark before the digits included. -/
def codeEscape? (digits : Nat) (cs : List Char) : Option (Char × Nat) :=
  if cs.length < digits then none
  else (hexValue? (cs.take digits)).bind fun n =>
    if (0xD800 ≤ n && n ≤ 0xDFFF) || n > 0x10FFFF then none else some (Char.ofNat n, digits + 1)

/-- The character behind a backslash, and the number of characters that stand for it. -/
def escape? : List Char → Option (Char × Nat)
  | 'b' :: _ => some ('\x08', 1)
  | 't' :: _ => some ('\t', 1)
  | 'n' :: _ => some ('\n', 1)
  | 'f' :: _ => some ('\x0c', 1)
  | 'r' :: _ => some ('\r', 1)
  | '"' :: _ => some ('"', 1)
  | '\\' :: _ => some ('\\', 1)
  | 'u' :: rest => codeEscape? 4 rest
  | 'U' :: rest => codeEscape? 8 rest
  | _ => none

def addChar (c : Char) : Option (List Char × List Char) → Option (List Char × List Char)
  | some (text, rest) => some (c :: text, rest)
  | none => none

/-- A text in double quotes, behind the first one; the first `skip` characters belong to an
escape. -/
def readBasic : Nat → Reader (List Char)
  | _, [] => none
  | skip + 1, _ :: cs => readBasic skip cs
  | 0, c :: cs =>
    if c = '"' then some ([], cs)
    else if c = '\\' then
      match escape? cs with
      | some (d, size) => addChar d (readBasic size cs)
      | none => none
    else if isVisible c then addChar c (readBasic 0 cs)
    else none

/-- A text in single quotes, behind the first one. -/
def readLiteral : Reader (List Char)
  | [] => none
  | c :: cs =>
    if c = '\'' then some ([], cs)
    else if isVisible c then addChar c (readLiteral cs)
    else none

/-- The number of quotes with which a text begins. -/
def quoteCount (quote : Char) (cs : List Char) : Nat := (cs.takeWhile (· == quote)).length

/-- Passes over blanks and line breaks. -/
def skipBlankLines : List Char → List Char
  | '\r' :: '\n' :: cs => skipBlankLines cs
  | c :: cs => if isWhite c || c == '\n' then skipBlankLines cs else c :: cs
  | [] => []

/-- The number of blanks and line breaks behind a backslash that ends a line, if one does. -/
def foldedBlanks? (cs : List Char) : Option Nat :=
  (lineBreak? (skipWhite cs)).map fun rest => cs.length - (skipBlankLines rest).length

/-- A text in three quotes, behind them and a first line break. Up to two quotes may stand inside
and before the closing ones. -/
def readMultiline (quote : Char) (escapes : Bool) : Nat → Reader (List Char)
  | _, [] => none
  | skip + 1, _ :: cs => readMultiline quote escapes skip cs
  | 0, c :: cs =>
    if c = quote then
      let count := quoteCount quote (c :: cs)
      if count ≥ 3 then
        let inner := min (count - 3) 2
        some (List.replicate inner quote, (c :: cs).drop (inner + 3))
      else addChar c (readMultiline quote escapes 0 cs)
    else if escapes && c = '\\' then
      match foldedBlanks? cs with
      | some size => readMultiline quote escapes size cs
      | none =>
        match escape? cs with
        | some (d, size) => addChar d (readMultiline quote escapes size cs)
        | none => none
    else if c = '\r' then
      if cs.head? == some '\n' then readMultiline quote escapes 0 cs else none
    else if c = '\n' || isVisible c then addChar c (readMultiline quote escapes 0 cs)
    else none

/-- The text behind a first line break, if there is one. -/
def dropFirstBreak (cs : List Char) : List Char := (lineBreak? cs).getD cs

def readString : Reader (List Char)
  | '"' :: '"' :: '"' :: cs => readMultiline '"' true 0 (dropFirstBreak cs)
  | '\'' :: '\'' :: '\'' :: cs => readMultiline '\'' false 0 (dropFirstBreak cs)
  | '"' :: cs => readBasic 0 cs
  | '\'' :: cs => readLiteral cs
  | _ => none

/-! ## Keys -/

def isBare (c : Char) : Bool := c.isAlphanum || c == '_' || c == '-'

def readSimpleKey (cs : List Char) : Option (String × List Char) :=
  match cs with
  | '"' :: rest => (readBasic 0 rest).map fun (key, rest) => (String.ofList key, rest)
  | '\'' :: rest => (readLiteral rest).map fun (key, rest) => (String.ofList key, rest)
  | _ =>
    let key := cs.takeWhile isBare
    if key.isEmpty then none else some (String.ofList key, cs.dropWhile isBare)

/-- A key and the parts that dots join to it, at most `bound` parts in all. -/
def readKey : Nat → Reader (List String)
  | 0, _ => none
  | bound + 1, cs =>
    match readSimpleKey (skipWhite cs) with
    | none => none
    | some (key, rest) =>
      match skipWhite rest with
      | '.' :: rest =>
        match readKey bound rest with
        | some (path, rest) => some (key :: path, rest)
        | none => none
      | rest => some ([key], rest)

/-- The largest number of parts of a key. -/
def maxKeyParts : Nat := 79

/-! ## Numbers and dates -/

/-- Digits of a base, single underscores between them. -/
def digitsIn? (base : Nat) : Bool → List Char → Option (List Nat)
  | afterDigit, [] => if afterDigit then some [] else none
  | afterDigit, c :: cs =>
    if c = '_' then if afterDigit then digitsIn? base false cs else none
    else match hexDigit? c with
      | some d => if d < base then (digitsIn? base true cs).map (d :: ·) else none
      | none => none

def natural? (base : Nat) (cs : List Char) : Option Nat :=
  (digitsIn? base false cs).map fun ds => ds.foldl (fun n d => n * base + d) 0

def fits64 (n : Int) : Bool := Int64.minValue.toInt ≤ n && n ≤ Int64.maxValue.toInt

/-- Decimal digits without a leading zero. -/
def decimal? (cs : List Char) : Option Nat :=
  if cs.head? == some '0' && cs.length > 1 then none else natural? 10 cs

def integer? (cs : List Char) : Option Int :=
  let n : Option Int := match cs with
    | '0' :: 'x' :: ds => (natural? 16 ds).map Int.ofNat
    | '0' :: 'o' :: ds => (natural? 8 ds).map Int.ofNat
    | '0' :: 'b' :: ds => (natural? 2 ds).map Int.ofNat
    | '+' :: ds => (decimal? ds).map Int.ofNat
    | '-' :: ds => (decimal? ds).map fun n => -(n : Int)
    | ds => (decimal? ds).map Int.ofNat
  n.filter fits64

def withoutSign : List Char → List Char
  | '+' :: cs | '-' :: cs => cs
  | cs => cs

/-- The power of ten behind the mark of an exponent. -/
def exponent? : List Char → Option Int
  | '+' :: ds => (natural? 10 ds).map Int.ofNat
  | '-' :: ds => (natural? 10 ds).map fun n => -(n : Int)
  | ds => (natural? 10 ds).map Int.ofNat

/-- A number without sign that has a fraction or an exponent: its digits and the power of ten. -/
def fractional? (cs : List Char) : Option (Nat × Int) :=
  let isMark (c : Char) : Bool := c == 'e' || c == 'E'
  let mantissa := cs.takeWhile fun c => !isMark c
  let exponent := cs.dropWhile fun c => !isMark c
  let whole := mantissa.takeWhile (· != '.')
  let fraction := mantissa.dropWhile (· != '.')
  if fraction.isEmpty && exponent.isEmpty then none
  else do
    let n ← decimal? whole
    let ds ← if fraction.isEmpty then some [] else digitsIn? 10 false (fraction.drop 1)
    let e ← if exponent.isEmpty then some 0 else exponent? (exponent.drop 1)
    pure (ds.foldl (fun n d => n * 10 + d) n, e - ds.length)

/-- Whether a text is a floating point number. A number beyond the largest one is none, unless it is
negative. -/
def isFloat (cs : List Char) : Bool :=
  let unsigned := withoutSign cs
  unsigned == ['i', 'n', 'f'] || unsigned == ['n', 'a', 'n'] ||
    match fractional? unsigned with
    | some (digits, power) =>
      cs.head? == some '-' || (Decimal.Binary64.ofDecimal? digits power).isSome
    | none => false

/-- Whether characters stand in a pattern in which `d` is a digit. -/
def fitsPattern : List Char → List Char → Bool
  | [], [] => true
  | 'd' :: pattern, c :: cs => c.isDigit && fitsPattern pattern cs
  | p :: pattern, c :: cs => p == c && fitsPattern pattern cs
  | _, _ => false

/-- The number that `count` digits form behind the first `start` characters. -/
def numberAt (start count : Nat) (cs : List Char) : Nat :=
  ((cs.drop start).take count).foldl (fun n c => n * 10 + (c.toNat - 48)) 0

/-- Whether hours and minutes stand behind the first `start` characters. -/
def isClock (start : Nat) (cs : List Char) : Bool :=
  fitsPattern "dd:dd".toList ((cs.drop start).take 5) &&
    numberAt start 2 cs ≤ 23 && numberAt (start + 3) 2 cs ≤ 59

/-- A time. A minute may have a second more than sixty. -/
def isTime (cs : List Char) : Bool :=
  isClock 0 cs && fitsPattern ":dd".toList ((cs.drop 5).take 3) && numberAt 6 2 cs ≤ 60 &&
    match cs.drop 8 with
    | [] => true
    | '.' :: fraction => !fraction.isEmpty && fraction.all Char.isDigit
    | _ => false

/-- A time with an optional distance from universal time. -/
def isOffsetTime (cs : List Char) : Bool :=
  isTime cs ||
    (match cs.getLast? with
      | some c => (c == 'Z' || c == 'z') && isTime cs.dropLast
      | none => false) ||
    (match (cs.drop (cs.length - 6)).head? with
      | some c => (c == '+' || c == '-') && isClock (cs.length - 5) cs &&
        isTime (cs.take (cs.length - 6))
      | none => false)

def isLeapYear (year : Nat) : Bool :=
  year % 4 == 0 && (year % 100 != 0 || year % 400 == 0)

/-- The number of days of a month, none of a month that does not exist. -/
def daysIn (year month : Nat) : Nat :=
  if [1, 3, 5, 7, 8, 10, 12].contains month then 31
  else if [4, 6, 9, 11].contains month then 30
  else if month = 2 then if isLeapYear year then 29 else 28
  else 0

/-- Whether a date of the calendar begins a text. -/
def beginsWithDay (cs : List Char) : Bool :=
  let day := numberAt 8 2 cs
  fitsPattern "dddd-dd-dd".toList (cs.take 10) &&
    1 ≤ day && day ≤ daysIn (numberAt 0 4 cs) (numberAt 5 2 cs)

/-- A date, a time or both, a distance from universal time only with both. -/
def isDate (cs : List Char) : Bool :=
  isTime cs ||
    (beginsWithDay cs &&
      match cs.drop 10 with
      | [] => true
      | c :: time => (c == 'T' || c == 't' || c == ' ') && isOffsetTime time)

/-- Characters of a number or date. -/
def isScalarChar (c : Char) : Bool :=
  c.isAlphanum || c == '_' || c == '+' || c == '-' || c == '.' || c == ':'

/-- A number, date or truth value. A date and its time may stand apart. -/
def readScalar (cs : List Char) : Option (Value × List Char) :=
  let word := cs.takeWhile isScalarChar
  let rest := cs.dropWhile isScalarChar
  let second := (rest.drop 1).takeWhile isScalarChar
  if rest.head? == some ' ' && isDate (word ++ ' ' :: second) then
    some (.date, (rest.drop 1).dropWhile isScalarChar)
  else if word == ['t', 'r', 'u', 'e'] then some (.boolean true, rest)
  else if word == ['f', 'a', 'l', 's', 'e'] then some (.boolean false, rest)
  else match integer? word with
    | some n => some (.integer n, rest)
    | none =>
      if isFloat word then some (.float, rest)
      else if isDate word then some (.date, rest)
      else none

/-! ## Values -/

/-- The items of an array behind its bracket or a comma. -/
def readItems (value : Reader Value) : Nat → Reader (List Value)
  | 0, _ => none
  | bound + 1, cs =>
    match skipLines false cs with
    | ']' :: rest => some ([], rest)
    | cs =>
      match value cs with
      | none => none
      | some (v, rest) =>
        match skipLines false rest with
        | ']' :: rest => some ([v], rest)
        | ',' :: rest =>
          match readItems value bound rest with
          | some (vs, rest) => some (v :: vs, rest)
          | none => none
        | _ => none

/-- A key, an equals sign and a value. -/
def readPair (value : Reader Value) (cs : List Char) :
    Option (List String × Value × List Char) :=
  match readKey maxKeyParts cs with
  | some (path, '=' :: rest) =>
    match value (skipWhite rest) with
    | some (v, rest) => some (path, v, rest)
    | none => none
  | _ => none

/-- The entries of an inline table, the first one beginning the text. -/
def readEntries (value : Reader Value) : Nat → Entries → Reader Entries
  | 0, _, _ => none
  | bound + 1, entries, cs =>
    match readPair value cs with
    | none => none
    | some (path, v, rest) =>
      match putKey path v .stated entries with
      | none => none
      | some entries =>
        match skipWhite rest with
        | '}' :: rest => some (entries, rest)
        | ',' :: rest => readEntries value bound entries rest
        | _ => none

/-- A value in which at most `depth` arrays and tables stand inside each other. -/
def readValue : Nat → Reader Value := fun depth cs =>
  match cs with
  | '"' :: _ | '\'' :: _ =>
    match readString cs with
    | some (text, rest) => some (.string (String.ofList text), rest)
    | none => none
  | '[' :: rest =>
    match depth with
    | 0 => none
    | depth + 1 =>
      match readItems (readValue depth) (rest.length + 1) rest with
      | some (items, rest) => some (.array items, rest)
      | none => none
  | '{' :: rest =>
    match depth with
    | 0 => none
    | depth + 1 =>
      match skipWhite rest with
      | '}' :: rest => some (.table .stated [], rest)
      | rest =>
        match readEntries (readValue depth) rest.length [] rest with
        | some (entries, rest) => some (.table .stated entries, rest)
        | none => none
  | _ => readScalar cs

/-- The deepest nesting of arrays and tables in a value. -/
def maxDepth : Nat := 79

/-! ## Lines -/

/-- The path of a header behind its bracket, up to the closing bracket. -/
def readHeader (cs : List Char) : Option (List String × List Char) :=
  match readKey maxKeyParts cs with
  | some (path, ']' :: rest) => some (path, rest)
  | _ => none

/-- Reads the lines of a text into a table; `header` is the path of the last header. -/
def readLines : Nat → List String → Entries → List Char → Option Entries
  | 0, _, _, _ => none
  | bound + 1, header, entries, cs =>
    match skipWhite cs with
    | [] => some entries
    | '[' :: '[' :: rest =>
      match readHeader rest with
      | some (path, ']' :: rest) =>
        match finishLine rest, openElement path entries with
        | some rest, some entries => readLines bound path entries rest
        | _, _ => none
      | _ => none
    | '[' :: rest =>
      match readHeader rest with
      | some (path, rest) =>
        match finishLine rest, openTable path entries with
        | some rest, some entries => readLines bound path entries rest
        | _, _ => none
      | none => none
    | c :: rest =>
      if c = '#' || c = '\n' || c = '\r' then
        match finishLine (c :: rest) with
        | some rest => readLines bound header entries rest
        | none => none
      else
        match readPair (readValue maxDepth) (c :: rest) with
        | none => none
        | some (path, v, rest) =>
          match finishLine rest, putUnder header path v entries with
          | some rest, some entries => readLines bound header entries rest
          | _, _ => none

/-- The table that a text holds. A mark of the byte order may begin it. -/
def parse (text : String) : Option Entries :=
  let cs := match text.toList with
    | '\ufeff' :: cs => cs
    | cs => cs
  readLines (cs.length + 1) [] [] cs

end SchemaLoom.Toml
