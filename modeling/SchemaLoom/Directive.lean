import SchemaLoom.Json.Basic
import SchemaLoom.Text.Search

/-!
# The vocabulary of directives

A key shaped like a directive is a dollar sign and an upper-case word. Four of them mean something;
the others are reported and removed. Four ordinary keys hold text with tokens.
-/

namespace SchemaLoom

namespace Directive

/-- Imports into the layer that holds it. -/
def importKey : String := "$IMPORT"

/-- Keeps a document out of the output tree. -/
def dontExportKey : String := "$DONT_EXPORT"

/-- Names the properties that documentation need not mention. -/
def ignoredFieldsKey : String := "$IGNORED_FIELDS"

/-- Lets the first missing reference below it pass. -/
def noRefCheckKey : String := "$NO_REF_CHECK"

/-- Names the documentation page of a template; it is no directive and stays in the output. -/
def docsUrlKey : String := "$docsUrl"

/-- The directives that mean something. -/
def known : List String := [importKey, dontExportKey, ignoredFieldsKey, noRefCheckKey]

/-- The keys whose text may hold tokens. -/
def templatedKeys : List String := ["description", "markdownDescription", "const", "enum"]

def isUpper (c : Char) : Bool := 'A' ≤ c && c ≤ 'Z'

def isUpperWord (c : Char) : Bool := isUpper c || c.isDigit || c == '_'

/-- Whether a key is shaped like a directive. -/
def looksLike (key : String) : Bool :=
  match key.toList with
  | '$' :: c :: rest => isUpper c && rest.all isUpperWord
  | _ => false

end Directive

namespace Json

/-- A flag is set by every value but null and false. -/
def isTruthy : Json → Bool
  | .null => false
  | .bool false => false
  | _ => true

/-- Whether an entry stays when directives are removed: the permission for a missing reference is
used up later, when references are resolved. -/
def staysInDocument (key : String) : Bool :=
  key == Directive.noRefCheckKey || !Directive.looksLike key

mutual

/-- The document without its directives. -/
def stripDirectives : Json → Json
  | .array items => .array (stripItems items)
  | .object fields => .object (stripFields fields)
  | v => v

def stripItems : List Json → List Json
  | [] => []
  | v :: vs => v.stripDirectives :: stripItems vs

def stripFields : List (String × Json) → List (String × Json)
  | [] => []
  | (k, v) :: rest =>
    if staysInDocument k then (k, v.stripDirectives) :: stripFields rest else stripFields rest

end

end Json

end SchemaLoom
