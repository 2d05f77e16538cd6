import SchemaLoom.Session.Compile

/-!
# Batches

A batch compiles templates as one generation. A template that fails is logged and listed, and the
others are compiled all the same.
-/

namespace SchemaLoom

structure BatchReport where
  /-- The number of documents compiled, imported ones included. -/
  compiled : Nat
  /-- The number of outputs written. -/
  written : Nat
  failures : List (Path × BuildError)

def BatchReport.isOk (r : BatchReport) : Bool := r.failures.isEmpty

namespace Workbench

/-- Forgets the documents compiled so far. -/
def newGeneration (w : Workbench) : Workbench :=
  w.modifySession fun s => { s with cache := Cache.empty, written := 0 }

/-- Compiles templates one after the other and lists those that fail. -/
def compileAll : Workbench → List Path → List (Path × BuildError) × Workbench
  | w, [] => ([], w)
  | w, path :: rest =>
    match w.compile path with
    | (.ok _, w) => compileAll w rest
    | (.error e, w) =>
      let id := w.session.layout.schemaId path
      let message := e.message
      let (failures, w) := compileAll (w.say "error" s!"{id}: {message}") rest
      ((path, e) :: failures, w)

def compileBatch (w : Workbench) (paths : List Path) : BatchReport × Workbench :=
  let (failures, w) := compileAll w.newGeneration paths
  (⟨w.session.cache.compiled, w.session.written, failures⟩, w)

/-- Changed templates, and behind them the existing ones that import them. -/
def withDependents (w : Workbench) (changed : List Path) : List Path :=
  changed ++ (w.session.imports.affected changed).filter w.files.isFile

/-- Forgets a template that was deleted. -/
def forgetSource (w : Workbench) (source : Path) : Workbench :=
  w.modifySession fun s => { s with imports := s.imports.remove source }

end Workbench

end SchemaLoom
