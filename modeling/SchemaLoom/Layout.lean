import SchemaLoom.Path.Lexical

/-!
# Source and output trees

Every template below the source root is written to the same place below the output root, with the
extension `json`. A template is named by its place in the source tree without extension.
-/

namespace SchemaLoom

/-- The extensions of templates, in the order in which they are tried. -/
def templateExtensions : List String := ["yml", "yaml", "json"]

def outputExtension : String := "json"

def Path.isTemplate (p : Path) : Bool :=
  match p.extension? with
  | some e => templateExtensions.contains e
  | none => false

/-- The file name without its extension; nothing for a path without a file name. -/
def Path.stem (p : Path) : String :=
  p.stem?.getD ""

structure Layout where
  source : Path
  output : Path
deriving DecidableEq, Repr

namespace Layout

/-- The place of a file in the source tree. -/
def sourceRelative? (l : Layout) (file : Path) : Option Path :=
  file.below? l.source

/-- The output of a template. A file outside the source tree keeps only its name. -/
def outputFor (l : Layout) (file : Path) : Path :=
  let relative := match l.sourceRelative? file with
    | some relative => relative
    | none => ⟨file.fileName?.getD ""⟩
  (l.output.join relative).withExtension outputExtension

/-- The name of a template's document. -/
def schemaId (l : Layout) (file : Path) : String :=
  (((l.sourceRelative? file).getD file).withExtension "").clean

/-- The place of a file as shown in messages. -/
def display (l : Layout) (file : Path) : String :=
  ((l.sourceRelative? file).getD file).clean

/-- Removes every `./` at the beginning. -/
def dropHere : List Char → List Char
  | '.' :: '/' :: rest => dropHere rest
  | cs => cs

/-- The directory below the source root that an import names, or nothing when it lies outside. -/
def sourceDirectory? (l : Layout) (relative : String) : Option Path :=
  let relative := (dropHere relative.toList).dropWhile (· == '/')
  let directory := (l.source.join (Path.ofChars relative)).normalize
  if directory.startsWith l.source then some directory else none

/-- The files that a reference below the source root may name, in the order in which they are tried.
A path with a template's extension names itself only. -/
def candidates (l : Layout) (relative : Path) : List Path :=
  let base := (l.source.join relative).normalize
  if !base.startsWith l.source then []
  else if base.isTemplate then [base]
  else templateExtensions.map fun e => Path.ofChars (base.chars ++ '.' :: e.toList)

/-- The path from the output of one template to the output of another. -/
def outputReference (l : Layout) (fromFile toFile : Path) : String :=
  let fromOutput := l.outputFor fromFile
  ((l.outputFor toFile).relativeTo (fromOutput.parent?.getD l.output)).clean

end Layout

end SchemaLoom
