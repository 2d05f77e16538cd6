import SchemaLoom.Watch.Category

/-!
# The watch loop

Events are only queued. A tick does one thing: it removes the output of one deleted template, or
it builds what is queued together with everything that imports it. After a failed batch, and after
the registry changed, the whole source tree is built instead; a failed batch waits for a change, a
changed registry does not.
-/

namespace SchemaLoom

structure WatchLoop where
  bench : Workbench
  configuration : Configuration
  /-- Deleted templates whose output still has to go. -/
  deletions : List Path
  /-- Templates to build; one may be named several times. -/
  changes : List Path
  registryChanged : Bool
  /-- Whether the next batch builds everything because the last one failed. -/
  lastFailed : Bool
  /-- Whether the next tick builds everything because the registry was reloaded. -/
  rebuildsAll : Bool

/-- What a tick did. -/
inductive Tick where
  | idle
  | deleted (source : Path)
  | built (report : BatchReport)

inductive EventKind where
  | create
  | modify
  | remove
  | access
  | any
deriving DecidableEq, Repr

structure WatchEvent where
  kind : EventKind
  paths : List Path
deriving DecidableEq, Repr

namespace WatchLoop

def start (bench : Workbench) (c : Configuration) : WatchLoop where
  bench := bench
  configuration := c
  deletions := []
  changes := []
  registryChanged := false
  lastFailed := false
  rebuildsAll := false

/-- Makes the next batch build everything. -/
def markFailed (l : WatchLoop) : WatchLoop := { l with lastFailed := true }

/-- A path as messages show it: below the root where that is possible, and without extension. -/
def shown (l : WatchLoop) (p : Path) : String :=
  (((p.below? l.configuration.rootPath).getD p).withExtension "").text

def say (l : WatchLoop) (part message : String) : WatchLoop :=
  { l with bench := l.bench.say part message }

/-! ## Events -/

def categorize (l : WatchLoop) (path : Path) : FileCategory :=
  l.configuration.categorize l.bench.files path

def enqueueChange (l : WatchLoop) (path : Path) : WatchLoop :=
  match l.categorize path with
  | .template => { l with changes := l.changes ++ [l.bench.files.normalizePath path] }
  | .registry => { l with registryChanged := true }
  | .unknown => l

def enqueueRemoval (l : WatchLoop) (path : Path) : WatchLoop :=
  match l.categorize path with
  | .template => { l with deletions := l.deletions ++ [l.bench.files.normalizePath path] }
  | .registry => { l with registryChanged := true }
  | .unknown => l

/-- Queues a path of an event: as deleted if the event says so or nothing is there. -/
def intakePath (kind : EventKind) (l : WatchLoop) (path : Path) : WatchLoop :=
  if kind = .remove || !l.bench.files.pathExists path then l.enqueueRemoval path
  else l.enqueueChange path

def intake (l : WatchLoop) (event : WatchEvent) : WatchLoop :=
  event.paths.foldl (intakePath event.kind) l

/-! ## Ticks -/

/-- Removes the output of a deleted template; that there is none is no error. -/
def removeOutput (l : WatchLoop) (source : Path) : WatchLoop :=
  let output := l.bench.session.layout.outputFor source
  match l.bench.files.removeFile output with
  | .ok files => { l with bench := { l.bench with files } }.say "watch" s!"deleted {l.shown output}"
  | .error .notFound => l
  | .error cause => l.say "error" s!"failed to delete {l.shown output}: {cause.message}"

/-- Queues the existing importers of a deleted template, forgets the template and removes its
output. -/
def delete (l : WatchLoop) (source : Path) : WatchLoop :=
  let importers := (l.bench.session.imports.affected [source]).filter l.bench.files.isFile
  { l with
    changes := l.changes ++ importers
    bench := l.bench.forgetSource source }.removeOutput source

/-- Loads the registry again. Whatever comes of it, the next batch builds everything. -/
def reloadRegistry (l : WatchLoop) : WatchLoop :=
  match l.configuration.loadRegistry l.bench.files with
  | .ok (registry, log) =>
    { l with
      rebuildsAll := true
      bench :=
        { l.bench.modifySession fun s => { s with registry } with log := l.bench.log ++ log } }
  | .error failure => { l with rebuildsAll := true }.say "error" failure.message

/-- Takes notice of a changed registry. -/
def checkRegistry (l : WatchLoop) : WatchLoop :=
  if l.registryChanged then { l with registryChanged := false }.reloadRegistry else l

/-- The templates of the next batch, and why these. -/
def plan (l : WatchLoop) : List Path × String :=
  if l.rebuildsAll then
    (l.configuration.sourceFiles l.bench.files, "registry changed, rebuilding everything")
  else if l.lastFailed then
    (l.configuration.sourceFiles l.bench.files, "previous build failed, rebuilding everything")
  else
    let batch := l.bench.withDependents l.changes
    let names := ", ".intercalate (l.changes.map l.shown)
    let count := toString batch.length
    if batch.length > l.changes.length then (batch, s!"{names} changed, rebuilding {count} files")
    else (batch, s!"{names} changed")

/-- Notes that a batch failed. -/
def noteFailure (l : WatchLoop) (report : BatchReport) : WatchLoop :=
  if report.isOk then l
  else l.markFailed.say "watch" "build failed, next change rebuilds everything"

/-- Builds the next batch. -/
def build (l : WatchLoop) : BatchReport × WatchLoop :=
  let (batch, reason) := l.plan
  let (report, bench) := (l.bench.say "watch" reason).compileBatch batch
  let l := { l with
    bench := bench.summarize report
    changes := []
    lastFailed := false
    rebuildsAll := false }
  (report, l.noteFailure report)

/-- One step: a deletion if one is queued, and otherwise a batch if there is something to build. -/
def tick (l : WatchLoop) : Tick × WatchLoop :=
  match l.deletions with
  | source :: deletions => (.deleted source, { l with deletions }.delete source)
  | [] =>
    let l := l.checkRegistry
    if l.changes.isEmpty && !l.rebuildsAll then (.idle, l)
    else
      let (report, l) := l.build
      (.built report, l)

end WatchLoop

end SchemaLoom
