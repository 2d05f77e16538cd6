import SchemaLoom.Json.Reader
import SchemaLoom.Json.Writer
import SchemaLoom.Text.Search

/-!
# Token tables

A table gives values to tokens. In plain text `$name` becomes the value's text, longer names first.
In a document the tokens are replaced in its compact text, which is then read back: a string value
that is exactly one token takes a value of another type as it is, and elsewhere the text of a value
is escaped as inside a string.
-/

namespace SchemaLoom

/-- Tokens and their values in the order in which the tokens were first given. -/
abbrev Substitution := Ordered Json

namespace Substitution

/-- Gives a token a text, in place of a value it may have. -/
def insert (token text : String) (table : Substitution) : Substitution :=
  Ordered.put token (.string text) table

/-- Gives every name of an object its value. -/
def extend (table : Substitution) (fields : Json.Fields) : Substitution :=
  Ordered.putAll table fields

def ofTexts (entries : List (String × String)) : Substitution :=
  entries.foldl (fun t e => insert e.1 e.2 t) []

/-- Whether a token is applied no later than another one: longer names go first. -/
def noLater (a b : String × Json) : Bool := b.1.utf8ByteSize ≤ a.1.utf8ByteSize

/-- The entries in the order of application. -/
def ordered (table : Substitution) : List (String × Json) := table.mergeSort noLater

/-- A string stands for itself, any other value for its document text. -/
def valueText : Json → List Char
  | .string s => s.toList
  | v => Json.compactChars v

/-- How a token is written. -/
def needle (token : String) : List Char := '$' :: token.toList

/-- Replaces every token, each in the text that the tokens before it left. -/
def applyWith (encode : List Char → List Char) (table : Substitution) (cs : List Char) :
    List Char :=
  table.ordered.foldl (fun cs e => Text.replaceAll (needle e.1) (encode (valueText e.2)) cs) cs

def applyChars (table : Substitution) (cs : List Char) : List Char :=
  applyWith id table cs

def apply (table : Substitution) (text : String) : String :=
  String.ofList (table.applyChars text.toList)

/-- Whether the text behind a quoted token shows that it is a key. -/
def isKeyEnd (cs : List Char) : Bool := cs.head? == some ':'

/-- Replaces every string value that is exactly the quoted token. `escaped` tells whether an odd
number of backslashes stands before the text, `skip` how much of it belongs to the match before.
-/
def replaceQuoted (quoted bare : List Char) : Nat → Bool → List Char → List Char
  | _, _, [] => []
  | skip + 1, _, _ :: cs => replaceQuoted quoted bare skip false cs
  | 0, escaped, c :: cs =>
    if quoted.isPrefixOf (c :: cs) && !escaped && !isKeyEnd ((c :: cs).drop quoted.length) then
      bare ++ replaceQuoted quoted bare (quoted.length - 1) false cs
    else c :: replaceQuoted quoted bare 0 (c == '\\' && !escaped) cs

/-- The token between quotes. -/
def quotedNeedle (token : String) : List Char := '"' :: needle token ++ ['"']

/-- Puts the values that are no strings in the place of the strings that name them. -/
def applyTyped (table : Substitution) (cs : List Char) : List Char :=
  table.foldl (fun cs e =>
    if e.2.isString then cs
    else replaceQuoted (quotedNeedle e.1) (Json.compactChars e.2) 0 false cs) cs

/-- The document with every token replaced; nothing when the replaced text is no document. -/
def applyJson (table : Substitution) (v : Json) : Option Json :=
  if table.isEmpty then some v
  else Json.parseChars (applyWith Json.escape table (applyTyped table (Json.compactChars v)))

/-- Whether a text may hold a token. -/
def hasToken (text : String) : Bool := text.toList.contains '$'

end Substitution

end SchemaLoom
