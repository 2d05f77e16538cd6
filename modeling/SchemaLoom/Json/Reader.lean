import SchemaLoom.Json.Basic

/-!
# Reading JSON

Blanks are space, tab, line feed and carriage return. A key that an object repeats keeps its first
place and takes its last value. At most 127 containers stand inside each other.

An integer that 64 bits hold stays an integer. Every other number is read in floating point: the
digits that fit 64 bits are rounded, further digits of the integer part only scale, further digits
of the fraction are dropped, and one multiplication or division by a rounded power of ten follows.
-/

namespace SchemaLoom.Json

open Decimal

/-- A reader takes the beginning of a text and leaves the rest. -/
abbrev Reader (α : Type) := List Char → Option (α × List Char)

def isSpace (c : Char) : Bool :=
  c == ' ' || c == '\t' || c == '\n' || c == '\r'

def skipSpace (cs : List Char) : List Char :=
  cs.dropWhile isSpace

/-- The value of a hexadecimal digit. -/
def hexDigit? (c : Char) : Option Nat :=
  if '0' ≤ c && c ≤ '9' then some (c.toNat - 48)
  else if 'a' ≤ c && c ≤ 'f' then some (c.toNat - 87)
  else if 'A' ≤ c && c ≤ 'F' then some (c.toNat - 55)
  else none

def hexCode? (a b c d : Char) : Option Nat := do
  let a ← hexDigit? a
  let b ← hexDigit? b
  let c ← hexDigit? c
  let d ← hexDigit? d
  pure (((a * 16 + b) * 16 + c) * 16 + d)

def isHighSurrogate (n : Nat) : Bool := 0xD800 ≤ n && n ≤ 0xDBFF

def isLowSurrogate (n : Nat) : Bool := 0xDC00 ≤ n && n ≤ 0xDFFF

/-- The character behind a backslash that stands for one character. -/
def simpleEscape? (c : Char) : Option Char :=
  if c = '"' then some '"'
  else if c = '\\' then some '\\'
  else if c = '/' then some '/'
  else if c = 'b' then some '\x08'
  else if c = 'f' then some '\x0c'
  else if c = 'n' then some '\n'
  else if c = 'r' then some '\r'
  else if c = 't' then some '\t'
  else none

/-- Prepends a character to what was read. -/
def addChar (c : Char) : Option (List Char × List Char) → Option (List Char × List Char)
  | some (text, rest) => some (c :: text, rest)
  | none => none

/-- The characters of a string up to its closing quote. A surrogate escape must be a high one
followed at once by a low one. -/
def readString : Reader (List Char)
  | [] => none
  | '"' :: rest => some ([], rest)
  | '\\' :: 'u' :: a :: b :: c :: d :: '\\' :: 'u' :: e :: f :: g :: h :: rest =>
    match hexCode? a b c d with
    | none => none
    | some n =>
      if isHighSurrogate n then
        match hexCode? e f g h with
        | none => none
        | some m =>
          if isLowSurrogate m then
            addChar (Char.ofNat (0x10000 + (n - 0xD800) * 0x400 + (m - 0xDC00))) (readString rest)
          else none
      else if isLowSurrogate n then none
      else addChar (Char.ofNat n) (readString ('\\' :: 'u' :: e :: f :: g :: h :: rest))
  | '\\' :: 'u' :: a :: b :: c :: d :: rest =>
    match hexCode? a b c d with
    | none => none
    | some n =>
      if isHighSurrogate n || isLowSurrogate n then none
      else addChar (Char.ofNat n) (readString rest)
  | '\\' :: c :: rest =>
    match simpleEscape? c with
    | some c => addChar c (readString rest)
    | none => none
  | c :: rest =>
    if c.toNat < 0x20 || c = '\\' then none else addChar c (readString rest)

def isDigit (c : Char) : Bool := '0' ≤ c && c ≤ '9'

def digitValue (c : Char) : Nat := c.toNat - 48

/-- The largest value that the digits of a number are collected to. -/
def maxUnsigned : Nat := UInt64.size - 1

/-- The digits collected from a number so far: their value and the power of ten that scales it. -/
structure Mantissa where
  value : Nat
  power : Int
  /-- Whether a digit of the integer part was left out. -/
  full : Bool

/-- Digits of the integer part. From the first one that does not fit, each scales by ten. -/
def Mantissa.addInteger (m : Mantissa) (c : Char) : Mantissa :=
  let value := m.value * 10 + digitValue c
  if m.full || value > maxUnsigned then { m with power := m.power + 1, full := true }
  else { m with value }

/-- Digits of the fraction. From the first one that does not fit, all are dropped. -/
def addFraction (m : Mantissa) : List Char → Mantissa
  | [] => m
  | c :: cs =>
    let value := m.value * 10 + digitValue c
    if value > maxUnsigned then m else addFraction { m with value, power := m.power - 1 } cs

/-- The power of ten as a floating point number, rounded. -/
def powerOfTen (n : Nat) : Option Binary64 := Binary64.ofDecimal? 1 n

/-- The largest power of ten that is divided by at once. -/
def largestStep : Nat := 308

/-- Divides by the largest step so many times, or until nothing is left. -/
def divideRepeatedly : Nat → Binary64 → Option Binary64
  | 0, x => some x
  | times + 1, x =>
    if x.isZero then some x
    else (powerOfTen largestStep).bind fun p => (x.div? p).bind (divideRepeatedly times)

/-- Divides by a power of ten, in steps, each of them rounded. -/
def divideByPower (x : Binary64) (n : Nat) : Option Binary64 :=
  let times := (n - 1) / largestStep
  (divideRepeatedly times x).bind fun y => (powerOfTen (n - times * largestStep)).bind y.div?

/-- The value of a mantissa scaled by a power of ten. -/
def scale (value : Nat) (power : Int) : Option Binary64 :=
  (Binary64.ofNat? value).bind fun x =>
    if 0 ≤ power then
      if power ≤ 308 then (powerOfTen power.toNat).bind x.mul?
      else if x.isZero then some x
      else none
    else divideByPower x (-power).toNat

/-- The largest magnitude of a negative integer. -/
def maxNegative : Nat := 9223372036854775808

/-- The largest exponent that is read as a number. -/
def maxExponent : Nat := 2147483647

/-- The written exponent of a number: its sign and its digits. -/
def readExponent : Reader (Bool × List Char) := fun cs =>
  let (negative, cs) := match cs with
    | '+' :: rest => (false, rest)
    | '-' :: rest => (true, rest)
    | _ => (false, cs)
  let ds := cs.takeWhile isDigit
  if ds.isEmpty then none else some ((negative, ds), cs.dropWhile isDigit)

def decimalValue (ds : List Char) : Nat :=
  ds.foldl (fun n c => n * 10 + digitValue c) 0

/-- The floating point number with a mantissa and a written exponent. An exponent too large to be
read makes the number zero or, with a plus sign, too large. -/
def realNumber (negative : Bool) (m : Mantissa) (exponent : Option (Bool × List Char)) :
    Option Binary64 :=
  (match exponent with
    | none => scale m.value m.power
    | some (down, ds) =>
      let e := decimalValue ds
      if e > maxExponent then
        if m.value = 0 || down then some (Binary64.zero false) else none
      else
        scale m.value (if down then m.power - e else m.power + e)).map (Binary64.withSign negative)

/-- A number behind its sign. -/
def readUnsigned (negative : Bool) : Reader Number := fun cs =>
  let whole := cs.takeWhile isDigit
  let rest := cs.dropWhile isDigit
  let m := whole.foldl Mantissa.addInteger ⟨0, 0, false⟩
  let real (m : Mantissa) (exponent : Option (Bool × List Char)) (rest : List Char) :
      Option (Number × List Char) :=
    (realNumber negative m exponent).map fun x => (.real x, rest)
  let withExponent (m : Mantissa) (rest : List Char) : Option (Number × List Char) :=
    match readExponent rest with
    | some (e, rest) => real m (some e) rest
    | none => none
  if whole.isEmpty || (whole.head? = some '0' && whole.length > 1) then none
  else match rest with
    | '.' :: rest =>
      let fraction := rest.takeWhile isDigit
      let rest := rest.dropWhile isDigit
      let m := addFraction m fraction
      if fraction.isEmpty then none
      else match rest with
        | 'e' :: rest | 'E' :: rest => withExponent m rest
        | _ => real m none rest
    | 'e' :: rest | 'E' :: rest => withExponent m rest
    | _ =>
      if m.full then real m none rest
      else if !negative then some (.int m.value, rest)
      else if m.value = 0 || m.value > maxNegative then real m none rest
      else some (.int (-(m.value : Int)), rest)

def readNumber : Reader Number
  | '-' :: rest => readUnsigned true rest
  | cs => readUnsigned false cs

/-- The items of an array up to the closing bracket, the first one beginning the text. -/
def readItems (value : Reader Json) : Nat → Reader (List Json)
  | 0, _ => none
  | bound + 1, cs =>
    match value cs with
    | none => none
    | some (v, rest) =>
      match skipSpace rest with
      | ']' :: rest => some ([v], rest)
      | ',' :: rest =>
        match readItems value bound rest with
        | some (vs, rest) => some (v :: vs, rest)
        | none => none
      | _ => none

/-- The entries of an object up to the closing brace, the first one beginning the text. -/
def readFields (value : Reader Json) : Nat → Reader (List (String × Json))
  | 0, _ => none
  | bound + 1, cs =>
    match skipSpace cs with
    | '"' :: rest =>
      match readString rest with
      | none => none
      | some (key, rest) =>
        match skipSpace rest with
        | ':' :: rest =>
          match value rest with
          | none => none
          | some (v, rest) =>
            match skipSpace rest with
            | '}' :: rest => some ([(String.ofList key, v)], rest)
            | ',' :: rest =>
              match readFields value bound rest with
              | some (vs, rest) => some ((String.ofList key, v) :: vs, rest)
              | none => none
            | _ => none
        | _ => none
    | _ => none

/-- A value in which at most `depth` containers stand inside each other and none has more than
`bound` entries. -/
def readValue (bound : Nat) : Nat → Reader Json := fun depth cs =>
  match skipSpace cs with
  | 'n' :: 'u' :: 'l' :: 'l' :: rest => some (.null, rest)
  | 't' :: 'r' :: 'u' :: 'e' :: rest => some (.bool true, rest)
  | 'f' :: 'a' :: 'l' :: 's' :: 'e' :: rest => some (.bool false, rest)
  | '"' :: rest =>
    match readString rest with
    | some (text, rest) => some (.string (String.ofList text), rest)
    | none => none
  | '[' :: rest =>
    match depth with
    | 0 => none
    | depth + 1 =>
      match skipSpace rest with
      | ']' :: rest => some (.array [], rest)
      | _ =>
        match readItems (readValue bound depth) bound rest with
        | some (items, rest) => some (.array items, rest)
        | none => none
  | '{' :: rest =>
    match depth with
    | 0 => none
    | depth + 1 =>
      match skipSpace rest with
      | '}' :: rest => some (.object [], rest)
      | _ =>
        match readFields (readValue bound depth) bound rest with
        | some (fields, rest) => some (.object (Ordered.ofList fields), rest)
        | none => none
  | cs =>
    match readNumber cs with
    | some (n, rest) => some (.number n, rest)
    | none => none

/-- The deepest nesting of containers that is read. -/
def maxDepth : Nat := 127

/-- The document that a text holds; blanks may surround it. Every entry takes at least one
character, so the length of the text bounds their number. -/
def parseChars (cs : List Char) : Option Json :=
  match readValue cs.length maxDepth cs with
  | some (v, rest) => if (skipSpace rest).isEmpty then some v else none
  | none => none

def parse (text : String) : Option Json :=
  parseChars text.toList

end SchemaLoom.Json
