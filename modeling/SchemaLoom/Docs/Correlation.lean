import SchemaLoom.Diagnostic
import SchemaLoom.Directive
import SchemaLoom.Docs.Page

/-!
# Documents and their documentation

The root of a document, and each property with a documented name, takes the documented description
when it has none. A name is declared where it is a key of an object under `properties`; documented
names that are not declared, and declared names that are not documented, are reported.

An object can be a property and a map of properties at once. What is filled into it as a property
counts among its names as a map, so filling is decided on the way down: every node is told what it
is given and whether its entries are properties.
-/

namespace SchemaLoom.Docs

/-- The names that a document exempts from documentation. -/
def ignoredFields (document : Json) : List String :=
  match document.get? Directive.ignoredFieldsKey with
  | some (.array items) => items.filterMap Json.asString?
  | some (.string s) => [s]
  | _ => []

def propertiesKey : String := "properties"

def descriptionKey : String := "description"

/-- The entries with a description, if one is given and none is there. -/
def describe (given : Option String) (fields : Json.Fields) : Json.Fields :=
  match given with
  | some text =>
    if Ordered.contains descriptionKey fields then fields
    else fields ++ [(descriptionKey, .string text)]
  | none => fields

/-- What a property of a name is given. -/
def Page.given? (p : Page) (name : String) : Option String :=
  ((p.field? name).map Field.description).filter fun s => s ≠ ""

/-- What an entry of an object is given. Only properties are given something. -/
def givenTo (p : Page) (ofProperties : Bool) (name : String) : Option String :=
  if ofProperties then p.given? name else none

mutual

/-- Fills descriptions into a node. With `ofProperties` set, its entries are properties. -/
def fillNode (p : Page) (given : Option String) (ofProperties : Bool) : Json → Json
  | .array items => .array (fillItems p items)
  | .object fields => .object (describe given (fillFields p ofProperties fields))
  | v => v

def fillItems (p : Page) : List Json → List Json
  | [] => []
  | v :: vs => fillNode p none false v :: fillItems p vs

def fillFields (p : Page) (ofProperties : Bool) : List (String × Json) → List (String × Json)
  | [] => []
  | (k, v) :: rest =>
    (k, fillNode p (givenTo p ofProperties k) (k = propertiesKey) v) ::
      fillFields p ofProperties rest

end

/-- The names of the properties that an object declares, with what the map of properties is given.
-/
def ownNames (given : Option String) (fields : Json.Fields) : List String :=
  match Ordered.get? propertiesKey fields with
  | some (.object properties) => (describe given properties).map Prod.fst
  | _ => []

mutual

/-- The names declared in a node, each as often as it is declared. -/
def declaredIn (p : Page) (ofProperties : Bool) : Json → List String
  | .array items => declaredInItems p items
  | .object fields =>
    ownNames (givenTo p ofProperties propertiesKey) fields ++ declaredInFields p fields
  | _ => []

def declaredInItems (p : Page) : List Json → List String
  | [] => []
  | v :: vs => declaredIn p false v ++ declaredInItems p vs

def declaredInFields (p : Page) : List (String × Json) → List String
  | [] => []
  | (k, v) :: rest => declaredIn p (k = propertiesKey) v ++ declaredInFields p rest

end

/-- A document whose root has a description if the page has one. -/
def describeRoot (p : Page) : Json → Json
  | .object fields =>
    .object (describe (if p.description = "" then none else some p.description) fields)
  | v => v

/-- The members of the root's enumeration that are texts. -/
def enumTexts (document : Json) : Option (List String) :=
  match document.get? "enum" with
  | some (.array items) => some (items.filterMap Json.asString?)
  | _ => none

/-- A field as messages name it, with its type and whether it is optional. -/
def Field.label (f : Field) : String :=
  let notes :=
    (if f.typeName = "" then [] else [f.typeName]) ++ if f.isOptional then ["optional"] else []
  let text := ", ".intercalate notes
  if notes.isEmpty then s!"`{f.name}`" else s!"`{f.name}` ({text})"

/-- Each name once, in the order of first occurrence. -/
def distinct (names : List String) : List String :=
  names.foldl (fun seen name => if seen.contains name then seen else seen ++ [name]) []

/-- The documented values missing from the enumeration. -/
def missingValues (p : Page) (document : Json) : List String :=
  match enumTexts document with
  | some members => p.values.filter fun v => !members.contains v
  | none => []

/-- The documented fields that nothing declares and that must be declared. -/
def missingFields (p : Page) (ignored declared : List String) : List Field :=
  p.fields.filter fun f => !declared.contains f.name && !f.isDeprecated && !ignored.contains f.name

/-- The declared names that nothing documents. -/
def unexpectedNames (p : Page) (ignored declared : List String) : List String :=
  distinct (declared.filter fun name => (p.field? name).isNone && !ignored.contains name)

/-- Whether the root says that it is an object. -/
def isObjectSchema (document : Json) : Bool :=
  document.getString? "type" == some "object"

/-- What differs between a document, whose root is described, and its page. -/
def mismatches (p : Page) (id : String) (ignored : List String) (document : Json) :
    List Diagnostic :=
  let values := (missingValues p document).map fun v =>
    ⟨.fieldMismatch, id, s!"documented value `{v}` is missing from enum"⟩
  if p.fields.isEmpty then values
  else
    let count := toString p.fields.length
    let shape := if isObjectSchema document then []
      else [⟨.schemaShapeMismatch, id,
        s!"schema is not an object, but `{p.title}` documents {count} fields"⟩]
    let declared := declaredIn p false document
    values ++ shape ++
      (missingFields p ignored declared).map (fun f =>
        let label := f.label
        ⟨.fieldMismatch, id, s!"documented field {label} is missing"⟩) ++
      (unexpectedNames p ignored declared).map fun name =>
        ⟨.fieldMismatch, id, s!"unexpected property `{name}` is not documented"⟩

/-- The document with the descriptions of its page, and what differs between the two. -/
def correlate (p : Page) (id : String) (ignored : List String) (document : Json) :
    Json × List Diagnostic :=
  let described := describeRoot p document
  (if p.fields.isEmpty then described else fillNode p none false described,
    mismatches p id ignored described)

end SchemaLoom.Docs
