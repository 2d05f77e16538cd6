import SchemaLoom.Session.Compile

/-!
# Direct expansion

A document is expanded from the root down in one pass. An array becomes the concatenation of what
its elements become: an element whose import yields branches becomes these branches, and every other
element becomes itself, expanded. In an object the entries are expanded in order up to an import;
the import takes the layer with the entries so expanded, and what stands behind it stays as it is
written. Contexts are those of the document as it was read.

Nothing is found first and executed later here, and nothing is re-indexed.
-/

namespace SchemaLoom.Expansion

open Compile (ofImport yieldOf)

/-- What becomes of the texts that stand directly in a field. -/
def textsOf (subject : Subject) (c : Context) (key : String) (value : Json) : String → String :=
  if Directive.templatedKeys.contains key && Discovery.isTemplated value then
    (c.table key subject.fileName subject.id).apply
  else id

/-- The layer after a directive that yields items: they go to the end of its array. -/
def placed (fields : Json.Fields) : Splicing.Yield → Except ImportFault Json.Fields
  | .items key items =>
    match Ordered.get? key fields with
    | some (.array array) => .ok (Ordered.put key (.array (array ++ items)) fields)
    | _ => .error (.outputKeyMissing key)
  | _ => .ok fields

/-- The layer with branches at the end of its `allOf`. -/
def withBranches (fields : Json.Fields) (branches : List Json) :
    Except ImportFault Json.Fields :=
  match Ordered.get? Splicing.allOfKey fields with
  | none => .ok (Ordered.put Splicing.allOfKey (.array branches) fields)
  | some (.array array) =>
    .ok (Ordered.put Splicing.allOfKey (.array (array ++ branches)) fields)
  | some _ => .error (.spliceTarget .allOfNotArray)

variable (compile : Path → Compile CompiledSchema) (subject : Subject)

/-- One directive on a layer, and the branches collected so far. -/
def step (layer : Json.Fields × Option (List Json)) (directive : ImportDirective) :
    Compile (Json.Fields × Option (List Json)) := do
  let yielded ← yieldOf compile subject directive
  let fields ← ofImport subject.id (placed layer.1 yielded)
  return (fields, Splicing.collect layer.2 yielded)

/-- The layer after its import, and the branches that the import yields. -/
def importLayer (arguments : Json) (fields : Json.Fields) :
    Compile (Json.Fields × Option (List Json)) := do
  let directives ← ofImport subject.id (ImportDirective.parseAll arguments)
  let (fields, collected) ← directives.foldlM (step compile subject) (fields, none)
  return (Ordered.erase Directive.importKey fields, collected)

/-- An object that is no element of an array, after its import. -/
def ownBranches (fields : Json.Fields) (collected : Option (List Json)) :
    Except ImportFault Json :=
  match collected with
  | none => .ok (.object fields)
  | some branches => (withBranches fields branches).map .object

/-- What an element of an array becomes after its import. -/
def slotBranches (fields : Json.Fields) (collected : Option (List Json)) : List Json :=
  match collected with
  | none => [.object fields]
  | some branches => branches

mutual

/-- What a value becomes that is no object in an array. `texts` is applied to the texts directly in
it. -/
def inNode (c : Context) (texts : String → String) : Json → Compile Json
  | .string s => return .string (texts s)
  | .array items => return .array (← inItems c texts 0 items)
  | .object fields => do
    let (fields, collected) ← inLayer c [] fields
    ofImport subject.id (ownBranches fields collected)
  | v => return v

def inItems (c : Context) (texts : String → String) (i : Nat) :
    List Json → Compile (List Json)
  | [] => return []
  | .object fields :: vs => do
    let (fields, collected) ← inLayer (c.push (.index i) .schema (.object fields)) [] fields
    return slotBranches fields collected ++ (← inItems c texts (i + 1) vs)
  | .string s :: vs => return .string (texts s) :: (← inItems c texts (i + 1) vs)
  | v :: vs => do
    let v ← inNode (c.push (.index i) (Discovery.itemKind v) v) id v
    return v :: (← inItems c texts (i + 1) vs)

/-- The entries of a layer behind those that are expanded already, and what its import yields. -/
def inLayer (c : Context) (expanded : Json.Fields) :
    List (String × Json) → Compile (Json.Fields × Option (List Json))
  | [] => return (expanded, none)
  | (k, v) :: rest =>
    if k = Directive.importKey then importLayer compile subject v (expanded ++ (k, v) :: rest)
    else if Directive.looksLike k then inLayer c (expanded ++ [(k, v)]) rest
    else do
      let u ← inNode (c.push (.key k) (Discovery.fieldKind c.current.kind k v) v)
        (textsOf subject c k v) v
      inLayer c (expanded ++ [(k, u)]) rest

end

/-- The document with every directive executed where it stands. -/
def ofDocument (document : Json) : Compile Json :=
  inNode compile subject (.ofRoot document) id document

end SchemaLoom.Expansion
