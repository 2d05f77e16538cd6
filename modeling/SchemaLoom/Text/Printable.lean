import SchemaLoom.Text.Hidden

/-!
# Texts in quotes, for messages

A text shown to a person stands in quotes; quotes, backslashes and characters that show nothing by
themselves are escaped.
-/

namespace SchemaLoom.Text

/-- A character between quotes. -/
def showChar (c : Char) : List Char :=
  if c = '"' then ['\\', '"']
  else if c = '\\' then ['\\', '\\']
  else if c = '\n' then ['\\', 'n']
  else if c = '\r' then ['\\', 'r']
  else if c = '\t' then ['\\', 't']
  else if c = '\x00' then ['\\', '0']
  else if isHidden c then '\\' :: 'u' :: '\x7b' :: Nat.toDigits 16 c.toNat ++ ['\x7d']
  else [c]

/-- A text in quotes. -/
def shown (s : String) : String :=
  String.ofList ('"' :: s.toList.flatMap showChar ++ ['"'])

end SchemaLoom.Text
