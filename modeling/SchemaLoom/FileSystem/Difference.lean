import SchemaLoom.FileSystem

/-!
# What changed in a file system

The edits that turn one file system into another: what is gone is removed, files first and then
directories from the inside out; then missing directories are made from the outside in, and files
that are new or hold something else are written.
-/

namespace SchemaLoom.FileSystem

/-- The files with their contents. -/
def fileList (fs : FileSystem) : List (Place × Contents) :=
  fs.entries.filterMap fun (place, entry) =>
    match entry with
    | .file contents => some (place, contents)
    | .directory => none

def directoryList (fs : FileSystem) : List Place :=
  fs.entries.filterMap fun (place, entry) =>
    match entry with
    | .directory => some place
    | .file _ => none

/-- The files of the second file system that are new or hold something else than in the first. -/
def writtenFiles (before after : FileSystem) : List (Place × Contents) :=
  after.fileList.filter fun (place, contents) => before.entry? place ≠ some (.file contents)

/-- The places of files of the first file system where the second has no file. -/
def removedFiles (before after : FileSystem) : List Place :=
  (before.fileList.map Prod.fst).filter fun place =>
    match after.entry? place with
    | some (.file _) => false
    | _ => true

inductive Edit where
  | removeFile (place : Place)
  | removeDirectory (place : Place)
  | makeDirectory (place : Place)
  | writeFile (place : Place) (contents : Contents)

def hasDirectory (fs : FileSystem) (place : Place) : Bool :=
  fs.entry? place = some .directory

/-- Places from the outside in. -/
def byDepth (places : List Place) : List Place :=
  places.mergeSort fun a b => a.length ≤ b.length

/-- The edits that lead from the first file system to the second. -/
def edits (before after : FileSystem) : List Edit :=
  (removedFiles before after).map .removeFile ++
    (byDepth (before.directoryList.filter fun place => !after.hasDirectory place)).reverse.map
      .removeDirectory ++
    (byDepth (after.directoryList.filter fun place => !before.hasDirectory place)).map
      .makeDirectory ++
    (writtenFiles before after).map fun (place, contents) => .writeFile place contents

end SchemaLoom.FileSystem
