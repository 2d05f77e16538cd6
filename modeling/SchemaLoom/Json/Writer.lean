import SchemaLoom.Decimal.Notation
import SchemaLoom.Json.Basic

/-!
# Writing JSON

The compact form has no blanks between its parts. The pretty form puts every entry on a line of its
own, indented by one tab a level, and keeps empty containers closed. Both end without a line break.
-/

namespace SchemaLoom.Json

/-- Numbers are written in plain digits or with the shortest text that reads back, a large exponent
carrying its sign. -/
def numberStyle : Decimal.Style := ⟨true⟩

def Number.text : Number → List Char
  | .int n => Decimal.integer n
  | .real x => Decimal.real numberStyle x

/-- A character inside a string: the quote, the backslash and control characters are escaped. -/
def escapeChar (c : Char) : List Char :=
  if c = '"' then ['\\', '"']
  else if c = '\\' then ['\\', '\\']
  else if c = '\n' then ['\\', 'n']
  else if c = '\r' then ['\\', 'r']
  else if c = '\t' then ['\\', 't']
  else if c = '\x08' then ['\\', 'b']
  else if c = '\x0c' then ['\\', 'f']
  else if c.toNat < 0x20 then
    ['\\', 'u', '0', '0', Decimal.digitChar (c.toNat / 16), Decimal.digitChar (c.toNat % 16)]
  else [c]

/-- The text between the quotes of a string. -/
def escape (cs : List Char) : List Char :=
  cs.flatMap escapeChar

def quoted (s : String) : List Char :=
  '"' :: escape s.toList ++ ['"']

mutual

def compactChars : Json → List Char
  | .null => ['n', 'u', 'l', 'l']
  | .bool true => ['t', 'r', 'u', 'e']
  | .bool false => ['f', 'a', 'l', 's', 'e']
  | .number n => n.text
  | .string s => quoted s
  | .array items => '[' :: compactItems items ++ [']']
  | .object fields => '{' :: compactFields fields ++ ['}']

def compactItems : List Json → List Char
  | [] => []
  | [v] => compactChars v
  | v :: vs => compactChars v ++ ',' :: compactItems vs

def compactFields : List (String × Json) → List Char
  | [] => []
  | [(k, v)] => quoted k ++ ':' :: compactChars v
  | (k, v) :: vs => quoted k ++ ':' :: compactChars v ++ ',' :: compactFields vs

end

/-- A line break and the indentation of a level. -/
def newLine (level : Nat) : List Char :=
  '\n' :: List.replicate level '\t'

mutual

def prettyChars (level : Nat) : Json → List Char
  | .array [] => ['[', ']']
  | .array (v :: vs) =>
    '[' :: newLine (level + 1) ++ prettyItems (level + 1) (v :: vs) ++ newLine level ++ [']']
  | .object [] => ['{', '}']
  | .object (f :: fs) =>
    '{' :: newLine (level + 1) ++ prettyFields (level + 1) (f :: fs) ++ newLine level ++ ['}']
  | .null => ['n', 'u', 'l', 'l']
  | .bool true => ['t', 'r', 'u', 'e']
  | .bool false => ['f', 'a', 'l', 's', 'e']
  | .number n => n.text
  | .string s => quoted s

def prettyItems (level : Nat) : List Json → List Char
  | [] => []
  | [v] => prettyChars level v
  | v :: vs => prettyChars level v ++ ',' :: newLine level ++ prettyItems level vs

def prettyFields (level : Nat) : List (String × Json) → List Char
  | [] => []
  | [(k, v)] => quoted k ++ ':' :: ' ' :: prettyChars level v
  | (k, v) :: vs =>
    quoted k ++ ':' :: ' ' :: prettyChars level v ++ ',' :: newLine level ++ prettyFields level vs

end

def compact (v : Json) : String :=
  String.ofList (compactChars v)

def pretty (v : Json) : String :=
  String.ofList (prettyChars 0 v)

end SchemaLoom.Json
