import SchemaLoom.Discovery
import SchemaLoom.Docs.Correlation
import SchemaLoom.FieldExpansion
import SchemaLoom.Session.Imports

/-!
# Compiling a template

A template is read, its directives are found and then executed in the order in which they were
found, its documentation is correlated, and what is left of the directives is removed. The
document is kept for the generation and, unless it says otherwise, written with its references
resolved.

A chain of imports visits every file at most once, and files written meanwhile import nothing; so
the number of files bounds its length.
-/

namespace SchemaLoom

namespace Compile

/-- Replaces the tokens in a field of the layer at a location. -/
def expandAt (subject : Subject) (document : Json) (context : Context) (location : Location)
    (key : String) : Json :=
  let table := context.table key subject.fileName subject.id
  document.modifyAt (expandField table) (location ++ [.key key])

/-- Executes a call on the document. -/
def execute (compile : Path → Compile CompiledSchema) (subject : Subject) (document : Json)
    (call : DeferredCall) : Compile (Json × Option Splice) :=
  match call.action with
  | .template key => return (expandAt subject document call.context call.context.location key, none)
  | .importing arguments => executeImport compile subject document call.context arguments

/-- A call after the arrays on its way were spliced, one after the other. -/
def shifted (splices : List Splice) (call : DeferredCall) : DeferredCall :=
  { call with context := splices.foldl Context.shiftAfter call.context }

/-- Executes the calls in their order; `splices` are those that the calls before made. -/
def executeAll (compile : Path → Compile CompiledSchema) (subject : Subject) (document : Json)
    (splices : List Splice) : List DeferredCall → Compile Json
  | [] => return document
  | call :: rest => do
    let (document, splice) ← execute compile subject document (shifted splices call)
    executeAll compile subject document (splices ++ splice.toList) rest

/-- The document with its documentation, and the diagnostics of that. -/
def correlated (site : Docs.Site) (files : FileSystem) (id url : String) (document : Json) :
    Json × List Diagnostic :=
  match site.page files url with
  | .ok page => Docs.correlate page id (Docs.ignoredFields document) document
  | .error reason =>
    let reason := reason.message
    (document, [⟨.fieldMismatch, id, s!"documentation unavailable: {reason}"⟩])

def correlateDocs (id : String) (document : Json) : Compile Json := do
  let w ← get
  match w.session.docs, document.getString? Directive.docsUrlKey with
  | some site, some url =>
    let (document, diagnostics) := correlated site w.files id url document
    modify fun w => w.recordAll diagnostics
    return document
  | _, _ => return document

/-- The text of an output. -/
def outputText (isPretty : Bool) (document : Json) : String :=
  if isPretty then document.pretty else document.compact

/-- Writes a file into a directory that is made when it is missing. -/
def writeOutput (output : Path) (text : String) : Compile Unit := do
  match output.parent? with
  | some parent =>
    match (← get).files.makeDirectories parent with
    | .ok files => modify fun w => { w with files }
    | .error cause => throw (.file parent cause)
  | none => pure ()
  match (← get).files.writeFile output (.text text) with
  | .ok files => modify fun w => { w with files }
  | .error cause => throw (.file output cause)

/-- Writes a document with its references resolved. -/
def write (schema : CompiledSchema) : Compile Unit := do
  let w ← get
  let resolver : Resolver := ⟨w.session.layout, w.files, schema.source⟩
  let (document, diagnostics) := resolver.resolve schema.id schema.document
  modify fun w => w.recordAll diagnostics
  writeOutput (w.session.layout.outputFor schema.source) (outputText w.session.isPretty document)
  modifySession fun s => { s with written := s.written + 1 }

def unknownDirective (id key : String) : Diagnostic :=
  ⟨.unknownDirective, id, s!"unknown directive `{key}` was stripped"⟩

/-- Whether a document asks to stay out of the output tree. -/
def isInternal (document : Json) : Bool :=
  ((document.get? Directive.dontExportKey).map Json.isTruthy).getD false

/-- Compiles a template that the generation does not have yet. -/
def fresh (compile : Path → Compile CompiledSchema) (subject : Subject) :
    Compile CompiledSchema := do
  say "compile" subject.id
  let document ← match (← get).files.readTemplate subject.source with
    | .ok document => pure document
    | .error e => throw e
  modifySession fun s => { s with imports := s.imports.forget subject.source }
  let discovery := Discovery.ofDocument document
  modify fun w => w.recordAll (discovery.unknown.map (unknownDirective subject.id))
  let document ← executeAll compile subject document [] discovery.calls
  let document ← correlateDocs subject.id document
  let schema : CompiledSchema :=
    ⟨subject.id, subject.source, document.stripDirectives, !isInternal document⟩
  modifySession fun s => { s with cache := s.cache.finish schema }
  if schema.isExported then write schema
  return schema

/-- Compiles a template with at most `length` further imports in a chain. -/
def within : Nat → Path → Compile CompiledSchema
  | 0, path => do throw (.importCycle ((← session).layout.schemaId path))
  | length + 1, path => do
    let s ← session
    let id := s.layout.schemaId path
    match s.cache.state path with
    | .known schema => return schema
    | .cycle => throw (.importCycle id)
    | .unknown =>
      modifySession fun s => { s with cache := s.cache.begin_ path }
      tryCatch (fresh (within length) ⟨path, id⟩) fun e => do
        modifySession fun s => { s with cache := s.cache.abandon path }
        throw e

/-- Compiles a template, unless the generation has it. -/
def template (path : Path) : Compile CompiledSchema := do
  within ((← get).files.fileCount + 2) path

end Compile

namespace Workbench

/-- Compiles a template and keeps what was reached. -/
def compile (w : Workbench) (path : Path) : Except BuildError CompiledSchema × Workbench :=
  match (Compile.template path).run w with
  | .ok schema w => (.ok schema, w)
  | .error e w => (.error e, w)

end Workbench

end SchemaLoom
