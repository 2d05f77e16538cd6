import SchemaLoom.Build

/-!
# What a changed file means

A template is a file with a template's extension below the source root, whether it exists or not.
The registry is its configured file. Files that editors leave behind mean nothing, and neither
does anything else.
-/

namespace SchemaLoom

inductive FileCategory where
  | template
  | registry
  | unknown
deriving DecidableEq, Repr

namespace FileCategory

def name : FileCategory → String
  | .template => "template"
  | .registry => "registry"
  | .unknown => "unknown"

/-- What is watched for a category, if anything. -/
def watched? (c : Configuration) : FileCategory → Option Path
  | .template => some c.source
  | .registry => c.registry
  | .unknown => none

/-- Whether a category is a whole directory. -/
def isDirectory : FileCategory → Bool
  | .template => true
  | _ => false

end FileCategory

/-- The extensions of files that editors leave behind. -/
def temporaryExtensions : List String := ["bck", "bak", "backup", "swp", "swo", "tmp"]

/-- Whether a file looks like one that an editor left behind. -/
def Path.isTemporary (p : Path) : Bool :=
  let name := (p.fileName?.getD "").toList
  temporaryExtensions.contains (p.extension?.getD "") || name.getLast? == some '~' ||
    name.head? == some '.'

/-- What a changed path means. -/
def Configuration.categorize (c : Configuration) (files : FileSystem) (path : Path) :
    FileCategory :=
  if path.isTemporary then .unknown
  else
    let path := files.normalizePath path
    if c.registry.any path.same then .registry
    else if path.startsWith c.source && path.isTemplate then .template
    else .unknown

end SchemaLoom
