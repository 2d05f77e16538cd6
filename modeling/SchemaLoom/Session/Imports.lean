import SchemaLoom.Reference.Resolution
import SchemaLoom.Session.Basic
import SchemaLoom.Session.Splicing
import SchemaLoom.Substitution

/-!
# Executing imports

The variants of an import are the templates directly in a directory, by name, less the excluded
ones. They are compiled on behalf of the importing template, which is recorded. How a template is
compiled is a parameter here.
-/

namespace SchemaLoom

/-- Files and layout as an import sees them. -/
structure Sources where
  layout : Layout
  files : FileSystem

namespace Sources

/-- The place below the source root that an import's path names, given plainly or as a reference. -/
def relativeImport (raw : String) : String :=
  match Reference.parse? raw with
  | some r =>
    if r.nameSpace.isEmpty then String.ofList r.path
    else String.ofList (r.nameSpace ++ '/' :: r.path)
  | none => raw

/-- The directory that an import names. -/
def importDirectory (s : Sources) (raw : String) : Except ImportFault Path :=
  match s.layout.sourceDirectory? (relativeImport raw) with
  | none => .error (.outsideSourceRoot raw)
  | some directory =>
    if s.files.isDirectory directory then .ok directory else .error (.notADirectory directory)

/-- The templates directly in a directory, by name, less those whose names are excluded. -/
def variants (s : Sources) (directory : Path) (exclude : List String) : List Path :=
  (s.files.filesIn directory).filter fun file => file.isTemplate && !exclude.contains file.stem

/-- The reference to a template. -/
def referenceTo (s : Sources) (file : Path) : Except ImportFault String :=
  match Reference.ofFile? s.layout file with
  | some r => .ok (String.ofList r.text)
  | none => .error (.outsideSourceRoot file.clean)

end Sources

def Workbench.sources (w : Workbench) : Sources := ⟨w.session.layout, w.files⟩

namespace Import

/-- A part of a directive with the tokens replaced for one item. -/
def substitute (part item : String) (table : Substitution) (v : Json) : Except ImportFault Json :=
  match table.applyJson v with
  | some v => .ok v
  | none => .error (.invalidArgument (.substitution part item))

/-- Sets entries on an object, and leaves other values as they are. -/
def addEntries (v : Json) (more : Json.Fields) : Json :=
  match v with
  | .object fields => .object (Ordered.putAll fields more)
  | v => v

/-- The branch with a condition and its consequence. -/
def branch (condition consequence : Json) : Json :=
  .object [("if", condition), ("then", consequence)]

/-- The tokens of a variant's condition. -/
def Conditional.table (a : Conditional) (name : String) : Substitution :=
  (Substitution.ofTexts [("schemaName", name)]).extend a.replace

/-- The tokens of an item of a registry. -/
def Items.table (a : Items) (item : String) : Substitution :=
  Substitution.ofTexts [("item", item), ("registryKey", a.registryKey)]

/-- The tokens of a file and its reference; both spellings of each are known. -/
def fileTable (name reference : String) : Substitution :=
  Substitution.ofTexts
    [("$fileRef", reference), ("$fileName", name), ("fileRef", reference), ("fileName", name)]

/-- The structure of every item that is not excluded. -/
def Items.structures (a : Items) (items : List String) : Except ImportFault (List Json) :=
  (items.filter fun item => !a.exclude.contains item).mapM fun item =>
    substitute "structure" item (a.table item) a.structure_

end Import

namespace Compile

open Import

def sources : Compile Sources := do return (← get).sources

/-- Compiles a template on behalf of another one. -/
def dependency (compile : Path → Compile CompiledSchema) (importer imported : Path) :
    Compile CompiledSchema := do
  modifySession fun s => { s with imports := s.imports.record importer imported }
  compile imported

/-- The directory that an import names and the variants in it. -/
def listVariants (subject : Subject) (raw : String) (exclude : List String) :
    Compile (Path × List Path) := do
  let s ← sources
  let directory ← ofImport subject.id (s.importDirectory raw)
  return (directory, s.variants directory exclude)

def sayVariants (subject : Subject) (what : String) (directory : Path) (noun : String)
    (count : Nat) :
    Compile Unit := do
  let shown := (← session).layout.display directory
  let count := toString count
  say "import" s!"{what}{shown} ({count} {noun}) into {subject.id}"

/-- What follows from the condition of a variant: its document, or a reference to it. -/
def consequence (subject : Subject) (contents : Bool) (a : Conditional) (variant : Path)
    (compiled : CompiledSchema) : Compile Json := do
  if contents then
    ofImport subject.id
      (substitute "variables" variant.stem ((a.table variant.stem).extend a.variableValues)
        compiled.document)
  else
    let reference ← ofImport subject.id ((← sources).referenceTo variant)
    return .object [("$ref", .string reference)]

/-- The branch of a variant. -/
def branchFor (compile : Path → Compile CompiledSchema) (subject : Subject) (contents : Bool)
    (a : Conditional) (variant : Path) : Compile Json := do
  let condition ← ofImport subject.id
    (substitute "condition" variant.stem (a.table variant.stem) a.condition)
  let compiled ← dependency compile subject.source variant
  let consequence ← consequence subject contents a variant compiled
  return branch condition (addEntries consequence a.thenAdditions)

def conditionalBranches (compile : Path → Compile CompiledSchema) (subject : Subject)
    (contents : Bool) (a : Conditional) : Compile (List Json) := do
  let (directory, variants) ← listVariants subject a.path a.exclude
  sayVariants subject "" directory "variants" variants.length
  variants.mapM (branchFor compile subject contents a)

def registryItems (subject : Subject) (a : Items) : Compile (List Json) := do
  match (← session).registry.bind fun r => r.lookup a.registryKey with
  | none => throw (.importing subject.id (.registryKeyMissing a.registryKey))
  | some items =>
    let count := toString items.length
    say "import" s!"registry `{a.registryKey}` ({count} items) into {subject.id}"
    ofImport subject.id (a.structures items)

/-- The structure for a file. -/
def fileItem (compile : Path → Compile CompiledSchema) (subject : Subject) (a : Files)
    (variant : Path) : Compile Json := do
  discard (dependency compile subject.source variant)
  let reference ← ofImport subject.id ((← sources).referenceTo variant)
  ofImport subject.id
    (substitute "structure" variant.stem (fileTable variant.stem reference) a.structure_)

def fileItems (compile : Path → Compile CompiledSchema) (subject : Subject) (a : Files) :
    Compile (List Json) := do
  let (directory, variants) ← listVariants subject a.path a.exclude
  sayVariants subject "" directory "files" variants.length
  variants.mapM (fileItem compile subject a)

/-- Compiles a template, or all templates of a directory. -/
def includeFiles (compile : Path → Compile CompiledSchema) (subject : Subject) (a : Include) :
    Compile Unit := do
  let s ← sources
  match s.files.findSource? s.layout ⟨Sources.relativeImport a.path⟩ with
  | some single =>
    let shown := s.layout.display single
    say "import" s!"include {shown} into {subject.id}"
    discard (dependency compile subject.source single)
  | none =>
    let (directory, variants) ← listVariants subject a.path a.exclude
    sayVariants subject "include " directory "files" variants.length
    variants.forM fun variant => discard (dependency compile subject.source variant)

/-- What a directive yields. -/
def yieldOf (compile : Path → Compile CompiledSchema) (subject : Subject) :
    ImportDirective → Compile Splicing.Yield
  | .conditional a => return .branches (← conditionalBranches compile subject false a)
  | .conditionalContents a => return .branches (← conditionalBranches compile subject true a)
  | .registry a => return .items a.outputKey (← registryItems subject a)
  | .filesIntoArray a => return .items a.outputKey (← fileItems compile subject a)
  | .include_ a => do
    includeFiles compile subject a
    return .nothing

/-- Executes the directives of an import in their order. -/
def executeImport (compile : Path → Compile CompiledSchema) (subject : Subject) (document : Json)
    (context : Context) (arguments : Json) : Compile (Json × Option Splice) := do
  let directives ← ofImport subject.id (ImportDirective.parseAll arguments)
  let (document, collected) ← directives.foldlM (fun (document, collected) directive => do
    let yielded ← yieldOf compile subject directive
    let document ← ofImport subject.id (Splicing.place document context.location yielded)
    return (document, Splicing.collect collected yielded)) (document, none)
  ofImport subject.id (Splicing.finish document context collected)

end Compile

end SchemaLoom
