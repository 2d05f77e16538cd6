import SchemaLoom.Error

/-!
# Registries

A registry gives every key a list of item identifiers. Its file is a template that maps keys to
lists of texts.
-/

namespace SchemaLoom

structure Registry where
  entries : Ordered (List String)
deriving DecidableEq, Repr

namespace Registry

def entriesOf : Json.Fields → Except Json.Mismatch (Ordered (List String))
  | [] => .ok []
  | (key, v) :: rest =>
    match v.asTexts with
    | .error e => .error e
    | .ok items =>
      match entriesOf rest with
      | .error e => .error e
      | .ok entries => .ok ((key, items) :: entries)

def ofJson (v : Json) : Except Json.Mismatch Registry :=
  match v.asMap with
  | .error e => .error e
  | .ok fields =>
    match entriesOf fields with
    | .error e => .error e
    | .ok entries => .ok ⟨entries⟩

def load (fs : FileSystem) (file : Path) : Except BuildError Registry :=
  match fs.readTemplate file with
  | .error e => .error e
  | .ok v =>
    match ofJson v with
    | .ok registry => .ok registry
    | .error mismatch => .error (.parse file (.registry mismatch))

/-- The items of a key, in their order. -/
def lookup (r : Registry) (key : String) : Option (List String) :=
  Ordered.get? key r.entries

def size (r : Registry) : Nat := r.entries.length

end Registry

end SchemaLoom
