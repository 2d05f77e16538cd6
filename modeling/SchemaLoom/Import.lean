import SchemaLoom.Directive
import SchemaLoom.Json.Shape
import SchemaLoom.Path.Basic

/-!
# Import directives

The value under `$IMPORT` is one directive or a list of them. A directive names its family under
`type`, or under `format` when there is no `type`. Then the required arguments must be there and
not null, in their order, and then every argument of the family must have its shape, in the order
in which they are written; other entries are ignored.

| family                                                      | effect                             |
|-------------------------------------------------------------|------------------------------------|
| `import_as_conditional_array`, `allOfIfThen`                | if/then branches that refer        |
| `import_contents_as_conditional_array`, `allOfIfThenUnique` | if/then branches with the contents |
| `import_minecraft_registry`                                 | one structure per registry item    |
| `import_files_into_array`                                   | one structure per file             |
| `include`                                                   | compiles and inserts nothing       |
-/

namespace SchemaLoom

/-- Why a directive cannot be read or carried out as it is written. -/
inductive ArgumentFault where
  | notAnObject (found : Json)
  | wrongShape (mismatch : Json.Mismatch)
  | repeated (field : String)
  /-- Replacing the tokens in a part of the directive for one item leaves no document. -/
  | substitution (part item : String)
deriving Repr

def ArgumentFault.message : ArgumentFault → String
  | .notAnObject found => let text := found.compact; s!"expected an object, found `{text}`"
  | .wrongShape mismatch => mismatch.message
  | .repeated field => s!"duplicate field `{field}`"
  | .substitution part item => s!"{part} for `{item}`: the text is not a document any more"

/-- What goes wrong with the layer that an import changes. -/
inductive SpliceFault where
  | layerGone
  | allOfNotArray
  | slotGone
deriving DecidableEq, Repr

def SpliceFault.message : SpliceFault → String
  | .layerGone => "the import layer is no longer an object"
  | .allOfNotArray => "`allOf` on the import layer is not an array"
  | .slotGone => "the enclosing array no longer holds the import"

/-- Why an import fails. -/
inductive ImportFault where
  | unknownDirective (kind : String)
  | missingArgument (argument : String)
  | invalidArgument (fault : ArgumentFault)
  | notADirectory (path : Path)
  | outsideSourceRoot (path : String)
  | outputKeyMissing (key : String)
  | registryKeyMissing (key : String)
  | spliceTarget (fault : SpliceFault)
deriving Repr

def ImportFault.message : ImportFault → String
  | .unknownDirective kind => s!"unknown directive type `{kind}`"
  | .missingArgument argument => s!"missing required argument `{argument}`"
  | .invalidArgument fault => let reason := fault.message; s!"invalid arguments: {reason}"
  | .notADirectory path => let text := path.text; s!"`{text}` is not a directory"
  | .outsideSourceRoot path => s!"`{path}` is outside the source root"
  | .outputKeyMissing key => s!"output_key `{key}` is not an array on the current layer"
  | .registryKeyMissing key => s!"registry key `{key}` not found"
  | .spliceTarget fault => fault.message

namespace Import

/-- The arguments of an import of variants as branches. -/
structure Conditional where
  path : String
  condition : Json
  replace : Json.Fields
  variableValues : Json.Fields
  exclude : List String
  thenAdditions : Json.Fields
deriving Repr

/-- The arguments of an import of registry items. -/
structure Items where
  registryKey : String
  outputKey : String
  structure_ : Json
  exclude : List String
deriving Repr

/-- The arguments of an import of files. -/
structure Files where
  path : String
  outputKey : String
  structure_ : Json
  exclude : List String
deriving Repr

structure Include where
  path : String
  exclude : List String
deriving Repr

inductive Family where
  | conditional
  | conditionalContents
  | registry
  | filesIntoArray
  | include_
deriving DecidableEq, Repr

/-- What an argument must be. -/
inductive FieldShape where
  | shaped (shape : Json.Shape)
  | any
deriving DecidableEq, Repr

namespace Family

/-- The family that a directive names. -/
def ofName? (name : String) : Option Family :=
  if name = "import_as_conditional_array" || name = "allOfIfThen" then some .conditional
  else if name = "import_contents_as_conditional_array" || name = "allOfIfThenUnique" then
    some .conditionalContents
  else if name = "import_minecraft_registry" then some .registry
  else if name = "import_files_into_array" then some .filesIntoArray
  else if name = "include" then some .include_
  else none

/-- The arguments that must be given, in the order in which they are missed. -/
def required : Family → List String
  | .conditional | .conditionalContents => ["path", "condition"]
  | .registry => ["registry_key", "output_key", "schema_structure"]
  | .filesIntoArray => ["path", "output_key", "schema_structure"]
  | .include_ => ["path"]

/-- The arguments of a family. -/
def fields : Family → List (String × FieldShape)
  | .conditional | .conditionalContents =>
    [("path", .shaped .text), ("condition", .any), ("replace", .shaped .map),
      ("variables", .shaped .map), ("exclude", .shaped .list), ("thenAdditions", .shaped .map)]
  | .registry =>
    [("registry_key", .shaped .text), ("output_key", .shaped .text), ("schema_structure", .any),
      ("exclude", .shaped .list)]
  | .filesIntoArray =>
    [("path", .shaped .text), ("output_key", .shaped .text), ("schema_structure", .any),
      ("exclude", .shaped .list)]
  | .include_ => [("path", .shaped .text), ("exclude", .shaped .list)]

/-- The argument that an entry's key names: one argument has a second spelling. -/
def canonical (f : Family) (key : String) : String :=
  match f with
  | .conditional | .conditionalContents => if key = "then_additions" then "thenAdditions" else key
  | _ => key

end Family

def checkShape (v : Json) : FieldShape → Except ArgumentFault Unit
  | .any => .ok ()
  | .shaped shape =>
    match match shape with
      | .text => v.asText.map fun _ => ()
      | .list => v.asTexts.map fun _ => ()
      | .map => v.asMap.map fun _ => () with
    | .ok () => .ok ()
    | .error mismatch => .error (.wrongShape mismatch)

/-- Checks the entries of a directive in their order; `seen` are the arguments already given. -/
def checkFields (f : Family) (seen : List String) : Json.Fields → Except ArgumentFault Unit
  | [] => .ok ()
  | (key, v) :: rest =>
    let name := f.canonical key
    match Ordered.get? name f.fields with
    | none => checkFields f seen rest
    | some shape =>
      if seen.contains name then .error (.repeated name)
      else match checkShape v shape with
        | .error fault => .error fault
        | .ok () => checkFields f (name :: seen) rest

/-- The required arguments that are missing or null. -/
def missing (f : Family) (fields : Json.Fields) : List String :=
  f.required.filter fun name =>
    match Ordered.get? name fields with
    | none | some .null => true
    | some _ => false

def textArgument (name : String) (fields : Json.Fields) : String :=
  match Ordered.get? name fields with
  | some (.string s) => s
  | _ => ""

def anyArgument (name : String) (fields : Json.Fields) : Json :=
  (Ordered.get? name fields).getD .null

def textsArgument (name : String) (fields : Json.Fields) : List String :=
  match Ordered.get? name fields with
  | some (.array items) => items.filterMap Json.asString?
  | _ => []

def mapArgument (name : String) (fields : Json.Fields) : Json.Fields :=
  match Ordered.get? name fields with
  | some (.object fields) => fields
  | _ => []

end Import

/-- A directive of an import. -/
inductive ImportDirective where
  /-- Branches that refer to the variants' outputs. -/
  | conditional (arguments : Import.Conditional)
  /-- Branches that hold the variants' documents. -/
  | conditionalContents (arguments : Import.Conditional)
  | registry (arguments : Import.Items)
  | filesIntoArray (arguments : Import.Files)
  | include_ (arguments : Import.Include)
deriving Repr

namespace ImportDirective

open Import

def conditionalOf (fields : Json.Fields) : Conditional where
  path := textArgument "path" fields
  condition := anyArgument "condition" fields
  replace := mapArgument "replace" fields
  variableValues := mapArgument "variables" fields
  exclude := textsArgument "exclude" fields
  thenAdditions :=
    if Ordered.contains "thenAdditions" fields then mapArgument "thenAdditions" fields
    else mapArgument "then_additions" fields

/-- The directive that checked entries form. -/
def ofFields (fields : Json.Fields) : Family → ImportDirective
  | .conditional => .conditional (conditionalOf fields)
  | .conditionalContents => .conditionalContents (conditionalOf fields)
  | .registry => .registry {
      registryKey := textArgument "registry_key" fields
      outputKey := textArgument "output_key" fields
      structure_ := anyArgument "schema_structure" fields
      exclude := textsArgument "exclude" fields }
  | .filesIntoArray => .filesIntoArray {
      path := textArgument "path" fields
      outputKey := textArgument "output_key" fields
      structure_ := anyArgument "schema_structure" fields
      exclude := textsArgument "exclude" fields }
  | .include_ => .include_ {
      path := textArgument "path" fields
      exclude := textsArgument "exclude" fields }

/-- The name of the family: under `type`, or under `format` when there is no `type`. -/
def familyName? (fields : Json.Fields) : Option String :=
  match Ordered.get? "type" fields with
  | some v => v.asString?
  | none => (Ordered.get? "format" fields).bind Json.asString?

/-- One directive. -/
def parse (arguments : Json) : Except ImportFault ImportDirective :=
  match arguments with
  | .object fields =>
    match familyName? fields with
    | none => .error (.missingArgument "type")
    | some name =>
      match Family.ofName? name with
      | none => .error (.unknownDirective name)
      | some family =>
        match missing family fields with
        | argument :: _ => .error (.missingArgument argument)
        | [] =>
          match checkFields family [] fields with
          | .error fault => .error (.invalidArgument fault)
          | .ok () => .ok (ofFields fields family)
  | v => .error (.invalidArgument (.notAnObject v))

def parseList : List Json → Except ImportFault (List ImportDirective)
  | [] => .ok []
  | v :: vs =>
    match parse v with
    | .error fault => .error fault
    | .ok d =>
      match parseList vs with
      | .error fault => .error fault
      | .ok ds => .ok (d :: ds)

/-- The directives under an import key. -/
def parseAll : Json → Except ImportFault (List ImportDirective)
  | .array items => parseList items
  | v => parseList [v]

end ImportDirective

end SchemaLoom
