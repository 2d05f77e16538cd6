import SchemaLoom.Path.Basic

/-!
# File systems

A file system is a table from places, lists of names below the root, to files and directories, and
a working directory. A path is followed piece by piece: every directory on the way must exist,
`..` leads to the directory above, and a final slash asks for a directory. Names and paths have a
largest size.
-/

namespace SchemaLoom

/-- The names that lead from the root to a file or directory. -/
abbrev Place := List String

/-- What a file holds: text, or bytes that are no text. -/
inductive Contents where
  | text (text : String)
  | binary (bytes : List UInt8)
deriving DecidableEq

inductive Entry where
  | directory
  | file (contents : Contents)
deriving DecidableEq

structure FileSystem where
  workingDirectory : Place
  entries : List (Place × Entry)

/-- Why a file operation failed. -/
inductive FileError where
  | notFound
  | notDirectory
  | isDirectory
  | alreadyExists
  | notText
  | invalidName
  | nameTooLong
deriving DecidableEq, Repr

def FileError.message : FileError → String
  | .notFound => "No such file or directory (os error 2)"
  | .notDirectory => "Not a directory (os error 20)"
  | .isDirectory => "Is a directory (os error 21)"
  | .alreadyExists => "File exists (os error 17)"
  | .notText => "stream did not contain valid UTF-8"
  | .invalidName => "file name contained an unexpected NUL byte"
  | .nameTooLong => "File name too long (os error 36)"

def Contents.ofBytes (bytes : ByteArray) : Contents :=
  match String.fromUTF8? bytes with
  | some s => .text s
  | none => .binary bytes.toList

namespace FileSystem

/-- The entry at a place of a table. -/
def lookup (place : Place) : List (Place × Entry) → Option Entry
  | [] => none
  | (p, e) :: rest => if p = place then some e else lookup place rest

/-- The entry at a place; the root is always a directory. -/
def entry? (fs : FileSystem) (place : Place) : Option Entry :=
  if place = [] then some .directory else lookup place fs.entries

/-- The table with an entry put at a place. -/
def store (place : Place) (entry : Entry) : List (Place × Entry) → List (Place × Entry)
  | [] => [(place, entry)]
  | (p, e) :: rest => if p = place then (p, entry) :: rest else (p, e) :: store place entry rest

def put (fs : FileSystem) (place : Place) (entry : Entry) : FileSystem :=
  { fs with entries := store place entry fs.entries }

/-- The file system without the entries whose places satisfy `gone`. -/
def without (fs : FileSystem) (gone : Place → Bool) : FileSystem :=
  { fs with entries := fs.entries.filter fun e => !gone e.1 }

def requireDirectory (fs : FileSystem) (place : Place) : Except FileError Unit :=
  match fs.entry? place with
  | some .directory => .ok ()
  | some (.file _) => .error .notDirectory
  | none => .error .notFound

/-- The largest number of bytes of a name. -/
def maxNameSize : Nat := 255

/-- The largest number of bytes of a path. -/
def maxPathSize : Nat := 4095

def sizeInBytes (cs : List Char) : Nat := cs.foldl (fun n c => n + c.utf8Size) 0

/-- Follows the pieces of a path from a place. -/
def follow (fs : FileSystem) : Place → List (List Char) → Except FileError Place
  | at_, [] => .ok at_
  | at_, piece :: rest =>
    match fs.requireDirectory at_ with
    | .error e => .error e
    | .ok () =>
      if sizeInBytes piece > maxNameSize then .error .nameTooLong
      else match Path.Component.ofPiece? piece with
        | some (.name s) => fs.follow (at_ ++ [s]) rest
        | some .up => fs.follow at_.dropLast rest
        | _ => fs.follow at_ rest

/-- The place that a path names, whether or not something is there. -/
def locate (fs : FileSystem) (p : Path) : Except FileError Place :=
  if p.chars.isEmpty then .error .notFound
  else if p.chars.contains '\x00' then .error .invalidName
  else if sizeInBytes p.chars > maxPathSize then .error .nameTooLong
  else if p.isAbsolute then fs.follow [] p.split.2
  else fs.follow fs.workingDirectory p.pieces

/-- The place of a path and what is there. -/
def find (fs : FileSystem) (p : Path) : Except FileError (Place × Entry) :=
  match fs.locate p with
  | .error e => .error e
  | .ok place =>
    match fs.entry? place with
    | some entry => .ok (place, entry)
    | none => .error .notFound

def pathExists (fs : FileSystem) (p : Path) : Bool :=
  match fs.find p with
  | .ok _ => true
  | .error _ => false

def isFile (fs : FileSystem) (p : Path) : Bool :=
  match fs.find p with
  | .ok (_, .file _) => true
  | _ => false

def isDirectory (fs : FileSystem) (p : Path) : Bool :=
  match fs.find p with
  | .ok (_, .directory) => true
  | _ => false

def readText (fs : FileSystem) (p : Path) : Except FileError String :=
  match fs.find p with
  | .error e => .error e
  | .ok (_, .directory) => .error .isDirectory
  | .ok (_, .file (.text s)) => .ok s
  | .ok (_, .file (.binary _)) => .error .notText

/-- Puts contents into a file, which is made if its directory exists. -/
def writeFile (fs : FileSystem) (p : Path) (contents : Contents) : Except FileError FileSystem :=
  match fs.locate p with
  | .error e => .error e
  | .ok place =>
    match fs.entry? place with
    | some .directory => .error .isDirectory
    | _ => .ok (fs.put place (.file contents))

def makeDirectory (fs : FileSystem) (p : Path) : Except FileError FileSystem :=
  match fs.locate p with
  | .error e => .error e
  | .ok place =>
    match fs.entry? place with
    | some _ => .error .alreadyExists
    | none => .ok (fs.put place .directory)

/-- Makes a directory; one that is there already counts as made. -/
def ensureDirectory (fs : FileSystem) (p : Path) : Except FileError FileSystem :=
  match fs.makeDirectory p with
  | .ok fs => .ok fs
  | .error e => if fs.isDirectory p then .ok fs else .error e

/-- Makes a directory whose ancestors are listed, the nearest first, and those of them that are
missing. -/
def ensureBelow (fs : FileSystem) (p : Path) : List Path → Except FileError FileSystem
  | [] => fs.ensureDirectory p
  | parent :: ancestors =>
    match fs.ensureDirectory p with
    | .ok fs => .ok fs
    | .error .notFound =>
      match fs.ensureBelow parent ancestors with
      | .error e => .error e
      | .ok fs => fs.ensureDirectory p
    | .error e => .error e

/-- The directories that a path stands in, the nearest first. -/
def ancestors (p : Path) : Nat → List Path
  | 0 => []
  | bound + 1 =>
    match p.parent? with
    | some parent => parent :: ancestors parent bound
    | none => []

/-- Makes a directory and the missing ones around it. The empty path needs none. -/
def makeDirectories (fs : FileSystem) (p : Path) : Except FileError FileSystem :=
  if p.chars.isEmpty then .ok fs else fs.ensureBelow p (ancestors p p.components.length)

def removeFile (fs : FileSystem) (p : Path) : Except FileError FileSystem :=
  match fs.find p with
  | .error e => .error e
  | .ok (_, .directory) => .error .isDirectory
  | .ok (place, .file _) => .ok (fs.without (· == place))

/-- Removes a directory with everything in it. -/
def removeDirectory (fs : FileSystem) (p : Path) : Except FileError FileSystem :=
  match fs.find p with
  | .error e => .error e
  | .ok (_, .file _) => .error .notDirectory
  | .ok (place, .directory) => .ok (fs.without place.isPrefixOf)

/-- The absolute path of a place. -/
def pathOf (place : Place) : Path :=
  Path.ofChars ('/' :: Text.joinWith ['/'] (place.map String.toList))

/-- The absolute path of something that exists. -/
def canonical? (fs : FileSystem) (p : Path) : Option Path :=
  match fs.find p with
  | .ok (place, _) => some (pathOf place)
  | .error _ => none

/-- The canonical path; of something that does not exist, the path as seen from the root. -/
def normalizePath (fs : FileSystem) (p : Path) : Path :=
  match fs.canonical? p with
  | some canonical => canonical
  | none => if p.isAbsolute then p else (pathOf fs.workingDirectory).join p

/-- The names that lead from one place to another below it. -/
def namesBelow? : Place → Place → Option (List String)
  | [], place => some place
  | a :: base, b :: place => if a = b then namesBelow? base place else none
  | _ :: _, [] => none

/-- The files directly in a directory, by name. -/
def filesIn (fs : FileSystem) (directory : Path) : List Path :=
  match fs.find directory with
  | .ok (base, .directory) =>
    let names := fs.entries.filterMap fun (place, entry) =>
      match entry, namesBelow? base place with
      | .file _, some [name] => some name
      | _, _ => none
    (names.mergeSort fun a b => !(b < a)).map fun name => directory.join ⟨name⟩
  | _ => []

/-- The files anywhere in a directory, or the path itself when it is a file. -/
def filesBelow (fs : FileSystem) (p : Path) : List Path :=
  match fs.find p with
  | .ok (base, .directory) =>
    fs.entries.filterMap fun (place, entry) =>
      match entry, namesBelow? base place with
      | .file _, some names => some (names.foldl (fun q name => q.join ⟨name⟩) p)
      | _, _ => none
  | .ok (_, .file _) => [p]
  | .error _ => []

/-- The number of files. -/
def fileCount (fs : FileSystem) : Nat :=
  (fs.entries.filter fun e => match e.2 with
    | .file _ => true
    | .directory => false).length

end FileSystem

end SchemaLoom
