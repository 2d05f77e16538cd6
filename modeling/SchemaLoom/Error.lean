import SchemaLoom.FileSystem
import SchemaLoom.Import
import SchemaLoom.Template

/-!
# Why a template does not compile

Every error belongs to the one template that is being compiled.
-/

namespace SchemaLoom

/-- Why a file does not hold what it should. -/
inductive ParseFault where
  | template (fault : Template.Malformed)
  | registry (mismatch : Json.Mismatch)
deriving Repr

def ParseFault.message : ParseFault → String
  | .template fault => fault.message
  | .registry mismatch =>
    let reason := mismatch.message
    s!"registry must map keys to string lists: {reason}"

inductive BuildError where
  /-- An import on the document of that name fails. -/
  | importing (id : String) (fault : ImportFault)
  | importCycle (id : String)
  | file (path : Path) (cause : FileError)
  | parse (path : Path) (fault : ParseFault)
deriving Repr

namespace BuildError

/-- The error itself, without its cause. -/
def summary : BuildError → String
  | .importing id fault => let reason := fault.message; s!"$IMPORT in `{id}`: {reason}"
  | .importCycle id => s!"import cycle: `{id}` is imported while it is still being compiled"
  | .file path _ => let path := path.text; s!"IO error at `{path}`"
  | .parse path fault =>
    let path := path.text
    let reason := fault.message
    s!"failed to parse `{path}`: {reason}"

/-- The error followed by its cause. -/
def message (e : BuildError) : String :=
  match e with
  | .file _ cause =>
    let summary := e.summary
    let cause := cause.message
    s!"{summary}: {cause}"
  | _ => e.summary

end BuildError

/-- The document of a template file. -/
def FileSystem.readTemplate (fs : FileSystem) (file : Path) : Except BuildError Json :=
  match fs.readText file with
  | .error cause => .error (.file file cause)
  | .ok text =>
    match Template.parse (.of file) text with
    | .ok v => .ok v
    | .error fault => .error (.parse file (.template fault))

end SchemaLoom
