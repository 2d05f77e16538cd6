import SchemaLoom.Program
import SchemaLoom.Watch.Polling

/-!
# Running the program

The part of the real file system that a configuration names is read into a value, the program runs
on it, and what it changed is written back. Watching repeats this.
-/

namespace SchemaLoom

/-- What is at a place of the real file system. -/
def readEntry (place : Place) : IO (Option Entry) := do
  match ← (IO.FS.realPath (FileSystem.pathOf place).text).toBaseIO with
  | .error _ => return none
  | .ok real =>
    if ← real.isDir then return some .directory
    match ← (IO.FS.readBinFile real).toBaseIO with
    | .ok bytes => return some (.file (.ofBytes bytes))
    | .error _ => return none

/-- The names in a directory of the real file system. -/
def namesIn (place : Place) : IO (List String) := do
  let real ← IO.FS.realPath (FileSystem.pathOf place).text
  return (← real.readDir).toList.map fun entry => entry.fileName

/-- Reads what is at a place and below it. -/
partial def readTree (files : FileSystem) (place : Place) : IO FileSystem := do
  match ← readEntry place with
  | none => return files
  | some entry =>
    let files := files.put place entry
    if entry ≠ .directory then return files
    (← namesIn place).foldlM (fun files name => readTree files (place ++ [name])) files

/-- Reads the directories on the way to a place. -/
def readWay (files : FileSystem) (place : Place) : IO FileSystem :=
  (List.range place.length).foldlM (fun files n => do
    match ← readEntry (place.take n) with
    | some entry => return files.put (place.take n) entry
    | none => return files) files

/-- The place that an absolute path names by its text alone. -/
def placeOf (p : Path) : Place :=
  p.normalize.components.filterMap fun c =>
    match c with
    | .name s => some s
    | _ => none

/-- A file system that knows the working directory only. -/
def readWorkingDirectory : IO FileSystem := do
  let place := placeOf ⟨(← IO.currentDir).toString⟩
  let files ← readWay ⟨place, []⟩ place
  return files.put place .directory

/-- Reads what is at some paths. -/
def readPaths (files : FileSystem) (paths : List Path) : IO FileSystem :=
  paths.foldlM (fun files p => do
    let place := placeOf (files.normalizePath p)
    readTree (← readWay files place) place) files

/-- The trees and files that a configuration names. -/
def namedBy (c : Configuration) : List Path :=
  [c.source, c.output] ++ c.registry.toList ++ c.docsRoot.toList

/-- Reads what the program with the given arguments may look at. -/
def readNamed (arguments : List String) : IO FileSystem := do
  let files ← readWorkingDirectory
  match CommandLine.parse arguments with
  | .error _ => return files
  | .ok options =>
    let files ← readPaths files [Configuration.fileOf options]
    match Configuration.gather files options with
    | .error _ => return files
    | .ok c => readPaths files (namedBy c)

/-- Carries out an edit on the real file system. -/
def applyEdit : FileSystem.Edit → IO Unit
  | .removeFile place => IO.FS.removeFile (FileSystem.pathOf place).text
  | .removeDirectory place => IO.FS.removeDir (FileSystem.pathOf place).text
  | .makeDirectory place => IO.FS.createDirAll (FileSystem.pathOf place).text
  | .writeFile place (.text s) => IO.FS.writeFile (FileSystem.pathOf place).text s
  | .writeFile place (.binary bytes) =>
    IO.FS.writeBinFile (FileSystem.pathOf place).text ⟨bytes.toArray⟩

/-- Writes back what changed. -/
def publish (before after : FileSystem) (log : List Log.Line) : IO Unit := do
  (FileSystem.edits before after).forM applyEdit
  log.forM fun line => IO.println line.text
  (← IO.getStdout).flush

/-- Looks at the files again and again, and does one step whenever they have come to rest. -/
partial def watch (l : WatchLoop) (lastEvent : Option Nat) : IO Unit := do
  IO.sleep (UInt32.ofNat l.configuration.interval)
  let files ← readPaths (← readWorkingDirectory) (namedBy l.configuration)
  let (events, l) := l.observe files
  let now ← IO.monoMsNow
  let lastEvent := if events.isEmpty then lastEvent else some now
  if lastEvent.all fun time => now - time ≥ l.configuration.debounce then
    let (_, l) := l.tick
    publish files l.bench.files l.bench.log
    watch l lastEvent
  else watch l lastEvent

end SchemaLoom

open SchemaLoom in
/-- The command `schemac`. -/
def main (arguments : List String) : IO UInt32 := do
  let files ← readNamed arguments
  match Program.start arguments files with
  | .ended outcome =>
    publish files outcome.files outcome.log
    IO.print outcome.answer
    IO.eprint outcome.complaint
    return UInt32.ofNat outcome.exitCode
  | .watching l =>
    publish files l.bench.files (l.bench.log ++ l.announcement)
    watch l none
    return 0
