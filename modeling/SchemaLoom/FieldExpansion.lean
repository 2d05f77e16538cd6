import SchemaLoom.Context
import SchemaLoom.Substitution

/-!
# Templated fields

A field's text may name its file, its document and the title and descriptions around it. A field
never takes its own annotation from its own layer, so `description: "$description"` reads the
enclosing schema's. A token without a value stays as it is written.
-/

namespace SchemaLoom

namespace Context

/-- The annotation that a token in the field `key` stands for. -/
def annotationFor (c : Context) (key : String) (a : Annotation) : Option String :=
  if a.key = key then c.nearestAncestor a else c.nearest a

/-- The tokens that the field `key` of the layer may use. -/
def table (c : Context) (key fileName id : String) : Substitution :=
  Annotation.all.foldl
    (fun table a => match c.annotationFor key a with
      | some text => table.insert a.key text
      | none => table)
    (Substitution.ofTexts [("fileName", fileName), ("id", id)])

end Context

/-- A field's value with the tokens replaced in its text, or in each text of an array. -/
def expandField (table : Substitution) : Json → Json
  | .string s => .string (table.apply s)
  | .array items => .array (items.map fun item =>
      match item with
      | .string s => .string (table.apply s)
      | v => v)
  | v => v

/-- The texts that a field's value holds. -/
def fieldTexts : Json → List String
  | .string s => [s]
  | .array items => items.filterMap Json.asString?
  | _ => []

/-- Whether replacing the tokens changes a field. -/
def fieldChanges (table : Substitution) (value : Json) : Bool :=
  (fieldTexts value).any fun s => table.apply s ≠ s

end SchemaLoom
