import SchemaLoom.Configuration.Loading
import SchemaLoom.Session.Batch

/-!
# Building the whole source tree

A session is started from a configuration: the registry is loaded, the documentation is located. A
full build compiles every template of the source tree as one batch and reports its diagnostics; it
fails if a template fails, and keeps what the others wrote.
-/

namespace SchemaLoom

inductive BuildFailure where
  | registry (file : Path) (cause : BuildError)
  | outputNotCleaned (output : Path) (cause : FileError)
  | templatesFailed (failed total : Nat)
deriving Repr

/-- An error and its cause, the error first. -/
def BuildError.chain (e : BuildError) : List String :=
  match e with
  | .file _ cause => [e.summary, cause.message]
  | _ => [e.summary]

namespace BuildFailure

/-- The failure itself, without its causes. -/
def summary : BuildFailure → String
  | .registry file _ => s!"Failed to load registry {file.text}"
  | .outputNotCleaned output _ => s!"Failed to clean output directory {output.text}"
  | .templatesFailed failed total =>
    let failed := toString failed
    let total := toString total
    s!"{failed} of {total} templates failed"

def causes : BuildFailure → List String
  | .registry _ cause => cause.chain
  | .outputNotCleaned _ cause => [cause.message]
  | .templatesFailed _ _ => []

/-- The failure followed by its causes. -/
def message (f : BuildFailure) : String :=
  ": ".intercalate (f.summary :: f.causes)

end BuildFailure

/-- The files that are no templates whatever their extension. -/
def ignoredFiles : List String := [".DS_Store"]

/-- The templates anywhere in a directory, in path order. -/
def FileSystem.templatesBelow (fs : FileSystem) (directory : Path) : List Path :=
  Path.sort ((fs.filesBelow directory).filter fun file =>
    file.isTemplate && !ignoredFiles.contains (file.fileName?.getD ""))

namespace Configuration

/-- A path as messages show it: below the root where that is possible. -/
def shown (c : Configuration) (p : Path) : String :=
  ((p.below? c.rootPath).getD p).text

def layout (c : Configuration) : Layout := ⟨c.source, c.output⟩

def sourceFiles (c : Configuration) (files : FileSystem) : List Path :=
  files.templatesBelow c.source

/-- The configured registry, and what there is to say about it. -/
def loadRegistry (c : Configuration) (files : FileSystem) :
    Except BuildFailure (Option Registry × List Log.Line) :=
  match c.registry with
  | none => .ok (none, [])
  | some file =>
    match Registry.load files file with
    | .error cause => .error (.registry file cause)
    | .ok registry =>
      let size := toString registry.size
      .ok (some registry, [⟨"registry", s!"{size} keys from {c.shown file}"⟩])

/-- A workbench with a new session. -/
def startSession (c : Configuration) (files : FileSystem) : Except BuildFailure Workbench :=
  match c.loadRegistry files with
  | .error failure => .error failure
  | .ok (registry, log) =>
    let docs := c.docsRoot.map fun root => ⟨root, c.docsBaseUrl⟩
    .ok ⟨.start c.layout registry docs c.isPretty, files, log⟩

end Configuration

namespace Workbench

/-- Works on the diagnostics of the session. -/
def onDiagnostics {α : Type} (w : Workbench) (f : Diagnostics → α × Diagnostics) :
    α × Workbench :=
  let (answer, left) := f w.session.diagnostics
  (answer, w.modifySession fun s => { s with diagnostics := left })

/-- Takes the diagnostics out of the session. -/
def drainDiagnostics (w : Workbench) : List Diagnostic × Workbench :=
  w.onDiagnostics Diagnostics.drain

/-- Logs the diagnostics and forgets them. -/
def reportDiagnostics (w : Workbench) : Workbench :=
  let (lines, w) := w.onDiagnostics Diagnostics.report
  { w with log := w.log ++ lines }

/-- Reports the diagnostics of a batch, and logs how many there were and what was built. -/
def summarize (w : Workbench) (r : BatchReport) : Workbench :=
  let count := w.session.diagnostics.size
  let w := w.reportDiagnostics
  let told := toString count
  let w := if count = 0 then w else w.say "diag" s!"{told} diagnostics"
  let written := toString r.written
  let compiled := toString r.compiled
  w.say "build" s!"built {written} files ({compiled} compiled)"

/-- Removes the output tree, if it is there. -/
def cleanOutput (w : Workbench) (c : Configuration) : Except BuildFailure Workbench :=
  if w.files.pathExists c.output then
    match w.files.removeDirectory c.output with
    | .error cause => .error (.outputNotCleaned c.output cause)
    | .ok files => .ok ({ w with files }.say "build" s!"cleaned {c.shown c.output}")
  else .ok w

/-- Compiles the whole source tree. -/
def buildSources (w : Workbench) (c : Configuration) : Except BuildFailure Unit × Workbench :=
  let sources := c.sourceFiles w.files
  let total := toString sources.length
  let (report, w) := (w.say "build" s!"compiling {total} templates").compileBatch sources
  let w := w.summarize report
  if report.isOk then (.ok (), w)
  else (.error (.templatesFailed report.failures.length sources.length), w)

/-- A full build, on a clean output tree if the configuration asks for it. -/
def buildAll (w : Workbench) (c : Configuration) : Except BuildFailure Unit × Workbench :=
  match if c.cleans then w.cleanOutput c else .ok w with
  | .error failure => (.error failure, w)
  | .ok w => w.buildSources c

end Workbench

end SchemaLoom
