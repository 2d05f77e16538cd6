/-!
# Tokens

The marks, properties and scalars of a text in their order. Block collections are bracketed by
tokens of their own, found from the columns; the key of a `key: value` pair is announced before
it.
-/

namespace SchemaLoom.Yaml

/-- The bytes of a tag or of a part of one. Escapes may write bytes that form no text. -/
abbrev Tag := List UInt8

inductive Token where
  | version (major minor : Nat)
  | tagShorthand (handle : List Char) (expansion : Tag)
  | documentStart
  | documentEnd
  | blockSequence
  | blockMapping
  | blockEnd
  | openBracket
  | closeBracket
  | openBrace
  | closeBrace
  | dash
  | comma
  | key
  | value
  | alias (name : List Char)
  | anchor (name : List Char)
  | tag (handle : List Char) (suffix : Tag)
  | scalar (plain : Bool) (text : List Char)
deriving DecidableEq, Repr

end SchemaLoom.Yaml
