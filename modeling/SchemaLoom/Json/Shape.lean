import SchemaLoom.Json.Writer
import SchemaLoom.Text.Printable

/-!
# The shape of a value

Readers that ask a value to be a text, a list of texts or an object, and what they say when it is
something else.
-/

namespace SchemaLoom.Json

inductive Shape where
  | text
  | list
  | map
deriving DecidableEq, Repr

def Shape.name : Shape → String
  | .text => "a string"
  | .list => "a sequence"
  | .map => "a map"

/-- A value that does not have the shape asked for. -/
structure Mismatch where
  found : Json
  expected : Shape
deriving Repr

/-- A value as a message names it; containers are named by their kind. -/
def describe : Json → String
  | .null => "null"
  | .bool true => "boolean `true`"
  | .bool false => "boolean `false`"
  | .number (.int n) => let digits := String.ofList (Decimal.integer n); s!"integer `{digits}`"
  | .number (.real x) =>
    let digits := String.ofList (Number.real x).text
    s!"floating point `{digits}`"
  | .string s => let quoted := Text.shown s; s!"string {quoted}"
  | .array _ => "sequence"
  | .object _ => "map"

def Mismatch.message (m : Mismatch) : String :=
  let found := describe m.found
  let expected := m.expected.name
  s!"invalid type: {found}, expected {expected}"

def asText : Json → Except Mismatch String
  | .string s => .ok s
  | v => .error ⟨v, .text⟩

/-- The texts of items that must all be texts. -/
def textsOf : List Json → Except Mismatch (List String)
  | [] => .ok []
  | v :: vs =>
    match v.asText with
    | .error e => .error e
    | .ok s =>
      match textsOf vs with
      | .error e => .error e
      | .ok rest => .ok (s :: rest)

def asTexts : Json → Except Mismatch (List String)
  | .array items => textsOf items
  | v => .error ⟨v, .list⟩

def asMap : Json → Except Mismatch Fields
  | .object fields => .ok fields
  | v => .error ⟨v, .map⟩

end SchemaLoom.Json
