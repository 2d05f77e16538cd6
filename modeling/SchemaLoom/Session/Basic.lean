import SchemaLoom.Cache
import SchemaLoom.Dependencies
import SchemaLoom.Diagnostic
import SchemaLoom.Docs.Site
import SchemaLoom.Log
import SchemaLoom.Registry

/-!
# Sessions

A session keeps what is known from build to build: where templates and outputs are, the registry
and the documentation, the documents of the current generation, who imports whom, and the
diagnostics not reported yet. It works on files and speaks through a log; the three together are a
workbench, the state of every compilation. An error of a compilation leaves the workbench as it
was reached.
-/

namespace SchemaLoom

structure Session where
  layout : Layout
  registry : Option Registry
  docs : Option Docs.Site
  /-- Whether outputs are indented. -/
  isPretty : Bool
  cache : Cache
  imports : Dependencies
  diagnostics : Diagnostics
  /-- The number of outputs written. -/
  written : Nat

namespace Session

def start (layout : Layout) (registry : Option Registry) (docs : Option Docs.Site)
    (isPretty : Bool) :
    Session where
  layout := layout
  registry := registry
  docs := docs
  isPretty := isPretty
  cache := Cache.empty
  imports := Dependencies.empty
  diagnostics := Diagnostics.empty
  written := 0

end Session

structure Workbench where
  session : Session
  files : FileSystem
  log : List Log.Line

namespace Workbench

def say (w : Workbench) (part message : String) : Workbench :=
  { w with log := w.log ++ [⟨part, message⟩] }

def modifySession (w : Workbench) (f : Session → Session) : Workbench :=
  { w with session := f w.session }

def recordAll (w : Workbench) (diagnostics : List Diagnostic) : Workbench :=
  w.modifySession fun s => { s with diagnostics := s.diagnostics.recordAll diagnostics }

end Workbench

/-- A step of a compilation. -/
abbrev Compile := EStateM BuildError Workbench

namespace Compile

def say (part message : String) : Compile Unit := modify fun w => w.say part message

def modifySession (f : Session → Session) : Compile Unit := modify fun w => w.modifySession f

def session : Compile Session := do return (← get).session

/-- Takes a result, or fails for an import of the document `id`. -/
def ofImport {α : Type} (id : String) : Except ImportFault α → Compile α
  | .ok a => pure a
  | .error fault => throw (.importing id fault)

end Compile

/-- The template whose directives are executed. -/
structure Subject where
  source : Path
  id : String
deriving DecidableEq, Repr

/-- The name of the subject's file without extension. -/
def Subject.fileName (s : Subject) : String := s.source.stem

end SchemaLoom
