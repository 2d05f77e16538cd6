import SchemaLoom.Proofs.Expansion.Basic
import SchemaLoom.Proofs.Expansion.Shift

/-!
# Runs of deferred calls

A run over the calls of several nodes is a run over the calls of each. Where a call acts is its way
as it was found, moved by the splices so far; splices inside a node move no way beside it.
-/

namespace SchemaLoom.Expansion

open Compile (execute executeAll shifted)
open Splice (moved moved_append moved_frames)
open Step (locate)

variable (compile : Path → Compile CompiledSchema) (subject : Subject)

/-! ## Runs of calls -/

/-- Executes calls in their order and keeps the splices. -/
def executeFrom (document : Json) (splices : List Splice) :
    List DeferredCall → Compile (Json × List Splice)
  | [] => return (document, splices)
  | call :: rest => do
    let r ← execute compile subject document (shifted splices call)
    executeFrom r.1 (splices ++ r.2.toList) rest

theorem executeAll_eq_map (document : Json) (splices : List Splice) (calls : List DeferredCall) :
    executeAll compile subject document splices calls =
      Prod.fst <$> executeFrom compile subject document splices calls := by
  induction calls generalizing document splices with
  | nil => simp [executeAll, executeFrom]
  | cons call rest ih => simp [executeAll, executeFrom, ih]

theorem executeFrom_append (document : Json) (splices : List Splice) (a b : List DeferredCall) :
    executeFrom compile subject document splices (a ++ b) =
      executeFrom compile subject document splices a >>= fun r =>
        executeFrom compile subject r.1 r.2 b := by
  induction a generalizing document splices with
  | nil => simp [executeFrom]
  | cons call a ih => simp [executeFrom, ih]

/-! ## Texts directly in a value -/

def mapText (texts : String → String) : Json → Json
  | .string s => .string (texts s)
  | v => v

def mapTexts (texts : String → String) : Json → Json
  | .string s => .string (texts s)
  | .array items => .array (items.map (mapText texts))
  | v => v

theorem mapText_id (v : Json) : mapText id v = v := by cases v <;> rfl

theorem mapTexts_id (v : Json) : mapTexts id v = v := by
  have identity : mapText id = id := funext mapText_id
  cases v <;> simp [mapTexts, identity]

/-! ## Where calls act -/

/-- The splices so far lead the way of a context's node along `way`. -/
def StandsAt (splices : List Splice) (c : Context) (way : List Step) : Prop :=
  moved splices c.steps = way

/-- The splices so far lead everything in a context's node along `way`. -/
def Leads (splices : List Splice) (c : Context) (way : List Step) : Prop :=
  ∀ more, moved splices (c.steps ++ more) = way ++ more

/-- The same for the entries of the node that have the given names. -/
def LeadsEntries (names : List String) (splices : List Splice) (c : Context) (way : List Step) :
    Prop :=
  ∀ k ∈ names, ∀ f more,
    moved splices (c.steps ++ ⟨.key k, f⟩ :: more) = way ++ ⟨.key k, f⟩ :: more

/-- The same for the items of the node from position `i` on, which are at `j` now. -/
def LeadsItems (i j : Nat) (splices : List Splice) (c : Context) (way : List Step) : Prop :=
  ∀ n f more, moved splices (c.steps ++ ⟨.index (i + n), f⟩ :: more) =
    way ++ ⟨.index (j + n), f⟩ :: more

/-- The later splices move no way that does not lead to `l`. -/
def KeepsOutside (l : Location) (splices later : List Splice) : Prop :=
  ∀ steps, ¬ l <+: locate (moved splices steps) → moved later steps = moved splices steps

namespace StandsAt

variable {splices : List Splice} {c : Context} {way : List Step}

theorem frames (h : StandsAt splices c way) :
    (⟨c.root, way⟩ : Context).frames = c.frames := by
  have same : way.map Step.frame = c.steps.map Step.frame := by
    rw [← h, moved_frames]
  simp [Context.frames, same]

theorem current (h : StandsAt splices c way) : (⟨c.root, way⟩ : Context).current = c.current := by
  simp [Context.current, h.frames]

theorem table (h : StandsAt splices c way) (key fileName id : String) :
    (⟨c.root, way⟩ : Context).table key fileName id = c.table key fileName id :=
  Context.table_congr h.frames rfl key fileName id

end StandsAt

section

variable {splices : List Splice} {c : Context} {way : List Step}

theorem Leads.standsAt (h : Leads splices c way) : StandsAt splices c way := by
  simpa [StandsAt] using h []

theorem Leads.entries (h : Leads splices c way) (names : List String) :
    LeadsEntries names splices c way := fun _ _ _ _ => h _

theorem Leads.items (h : Leads splices c way) : LeadsItems 0 0 splices c way := by
  intro n f more
  simpa using h (⟨.index n, f⟩ :: more)

theorem LeadsEntries.push {names : List String} (h : LeadsEntries names splices c way)
    {k : String} (member : k ∈ names) (kind : FrameKind) (v : Json) :
    Leads splices (c.push (.key k) kind v) (way ++ [⟨.key k, .ofNode kind v⟩]) := by
  intro more
  simpa [Context.push] using h k member (.ofNode kind v) more

theorem LeadsItems.push {i j : Nat} (h : LeadsItems i j splices c way) (kind : FrameKind)
    (v : Json) :
    Leads splices (c.push (.index i) kind v) (way ++ [⟨.index j, .ofNode kind v⟩]) := by
  intro more
  simpa [Context.push] using h 0 (.ofNode kind v) more

end

namespace KeepsOutside

variable {l m : Location} {a b c : List Splice}

theorem refl (l : Location) (a : List Splice) : KeepsOutside l a a := fun _ _ => rfl

theorem trans (first : KeepsOutside l a b) (second : KeepsOutside l b c) :
    KeepsOutside l a c := by
  intro steps outside
  have same := first steps outside
  rw [← same] at outside
  rw [second steps outside, same]

theorem widen (h : KeepsOutside m a b) (within : l <+: m) : KeepsOutside l a b :=
  fun steps outside => h steps fun inside => outside (within.trans inside)

end KeepsOutside

theorem arraySlot?_key (root : Frame) (way : List Step) (key : String) (f : Frame) :
    (⟨root, way ++ [⟨.key key, f⟩]⟩ : Context).arraySlot? = none := by
  simp [Context.arraySlot?]

theorem arraySlot?_index (root : Frame) (way : List Step) (i : Nat) (f : Frame)
    (inArray : (⟨root, way⟩ : Context).current.isArray = true) :
    (⟨root, way ++ [⟨.index i, f⟩]⟩ : Context).arraySlot? = some (locate way, i) := by
  have frames : (⟨root, way ++ [⟨.index i, f⟩]⟩ : Context).frames.dropLast =
      (⟨root, way⟩ : Context).frames := by
    simp only [Context.frames, List.map_append, List.map_cons, List.map_nil, ← List.cons_append,
      List.dropLast_concat]
  have last : (⟨root, way⟩ : Context).frames.getLast? =
      some (⟨root, way⟩ : Context).current := by
    simp [Context.current, Context.frames, List.getLast?_cons]
  simp [Context.arraySlot?, frames, last, inArray, Context.location, locate]

end SchemaLoom.Expansion
