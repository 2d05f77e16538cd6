import SchemaLoom.Log

/-!
# Diagnostics

What is worth telling but stops nothing. A list of diagnostics holds each one once, in the order in
which they were first recorded. Beside the list stands the set of what was recorded, which decides
whether a diagnostic is new.
-/

namespace SchemaLoom

inductive DiagnosticKind where
  /-- A reference names a template that does not exist. -/
  | missingReference
  /-- A key is shaped like a directive and means nothing. -/
  | unknownDirective
  /-- Documentation describes the fields of a schema that is no object. -/
  | schemaShapeMismatch
  /-- Documented and declared properties differ. -/
  | fieldMismatch
deriving DecidableEq, Repr

namespace DiagnosticKind

def label : DiagnosticKind → String
  | .missingReference => "missing-reference"
  | .unknownDirective => "unknown-directive"
  | .schemaShapeMismatch => "schema-shape-mismatch"
  | .fieldMismatch => "field-mismatch"

def all : List DiagnosticKind :=
  [.missingReference, .unknownDirective, .schemaShapeMismatch, .fieldMismatch]

end DiagnosticKind

structure Diagnostic where
  kind : DiagnosticKind
  /-- The document that it is about. -/
  path : String
  message : String
deriving DecidableEq, Repr

def Diagnostic.text (d : Diagnostic) : String :=
  s!"{d.kind.label} in {d.path}: {d.message}"

/-- The diagnostic as it is logged. -/
def Diagnostic.line (d : Diagnostic) : Log.Line := ⟨"diag", d.text⟩

/-- Diagnostics without repetition. -/
structure Diagnostics where
  items : List Diagnostic
  /-- A set: neither order nor repetition means anything. -/
  seen : List Diagnostic
  /-- The set and the list are in step. -/
  mem_seen : ∀ d, d ∈ seen ↔ d ∈ items
deriving DecidableEq, Repr

namespace Diagnostics

def empty : Diagnostics := ⟨[], [], fun _ => Iff.rfl⟩

/-- Records a diagnostic unless it was seen, and tells whether it was added. -/
def push (d : Diagnostic) (ds : Diagnostics) : Bool × Diagnostics :=
  if d ∈ ds.seen then (false, ds)
  else (true, ⟨ds.items ++ [d], d :: ds.seen, fun e => by simp [ds.mem_seen, or_comm]⟩)

def record (d : Diagnostic) (ds : Diagnostics) : Diagnostics := (ds.push d).2

/-- Whether recording a diagnostic adds it. -/
def isNew (d : Diagnostic) (ds : Diagnostics) : Bool := (ds.push d).1

def recordAll (ds : Diagnostics) (more : List Diagnostic) : Diagnostics :=
  more.foldl (fun ds d => ds.record d) ds

def size (ds : Diagnostics) : Nat := ds.items.length

def count (kind : DiagnosticKind) (ds : Diagnostics) : Nat :=
  (ds.items.filter fun d => d.kind = kind).length

/-- The diagnostics, and the list without them. -/
def drain (ds : Diagnostics) : List Diagnostic × Diagnostics := (ds.items, empty)

/-- What is logged of the diagnostics, and the list without them. -/
def report (ds : Diagnostics) : List Log.Line × Diagnostics :=
  let (items, left) := ds.drain
  (items.map Diagnostic.line, left)

end Diagnostics

end SchemaLoom
