import SchemaLoom.Proofs.Expansion.Run

/-!
# Locations after splices

A splice moves the locations behind the replaced element of its array and no other. Ways that do
not lead through the replaced element stay in order: one begins with another after the splice only
if it did before.
-/

namespace SchemaLoom

open Context (shiftSteps)
open Step (locate)

namespace Splice

/-- The location after a splice of the array at a location. -/
def relocate (s : Splice) : Location → Location → Location
  | _, [] => []
  | [], .index j :: rest => .index (s.shiftIndex j) :: rest
  | [], .key k :: rest => .key k :: rest
  | segment :: array, t :: rest =>
    if t = segment then t :: relocate s array rest else t :: rest

attribute [local simp] relocate

/-- The location after splices, one after the other. -/
def relocated (splices : List Splice) (l : Location) : Location :=
  splices.foldl (fun l s => s.relocate s.array l) l

/-- The splice of an array in a node, seen from around the node. -/
def under (l : Location) (s : Splice) : Splice := { s with array := l ++ s.array }

@[simp] theorem relocated_nil (l : Location) : relocated [] l = l := rfl

@[simp] theorem relocated_append (a b : List Splice) (l : Location) :
    relocated (a ++ b) l = relocated b (relocated a l) := List.foldl_append

theorem locate_shiftSteps (s : Splice) (array : Location) (steps : List Step) :
    locate (shiftSteps s array steps) = s.relocate array (locate steps) := by
  fun_induction shiftSteps s array steps with
  | case1 => simp
  | case2 step rest j eq => simp [eq]
  | case3 step rest k eq => simp [eq]
  | case4 array step rest ih => simp [ih]
  | case5 segment array step rest different => simp [different]

theorem locate_moved (splices : List Splice) (steps : List Step) :
    locate (moved splices steps) = relocated splices (locate steps) := by
  induction splices generalizing steps with
  | nil => rfl
  | cons s splices ih =>
    change locate (moved splices (shiftSteps s s.array steps)) = _
    rw [ih, locate_shiftSteps]
    rfl

@[simp] theorem length_relocate (s : Splice) (array l : Location) :
    (s.relocate array l).length = l.length := by
  fun_induction relocate s array l with
  | case1 | case2 | case3 | case5 => rfl
  | case4 _ _ _ ih => simp [ih]

@[simp] theorem length_relocated (splices : List Splice) (l : Location) :
    (relocated splices l).length = l.length := by
  induction splices generalizing l with
  | nil => rfl
  | cons s splices ih =>
    change (relocated splices (s.relocate s.array l)).length = _
    rw [ih, length_relocate]

/-! ## Which locations move -/

variable (s : Splice)

@[simp] theorem relocate_empty (array : Location) : s.relocate array [] = [] := by
  cases array <;> rfl

theorem relocate_outside {array l : Location} (outside : ¬ array <+: l) :
    s.relocate array l = l := by
  fun_induction relocate s array l with
  | case1 | case3 | case5 => rfl
  | case2 => exact absurd List.nil_prefix outside
  | case4 array t rest ih =>
    simp only [List.prefix_cons_inj] at outside
    rw [ih outside]

theorem relocate_through (l array m : Location) :
    s.relocate (l ++ array) (l ++ m) = l ++ s.relocate array m := by
  induction l with
  | nil => rfl
  | cons t l ih => simp [ih]

theorem relocate_index (array rest : Location) (j : Nat) :
    s.relocate array (array ++ .index j :: rest) = array ++ .index (s.shiftIndex j) :: rest := by
  simpa using s.relocate_through array [] (.index j :: rest)

/-- A splice that is not below a node moves the node with everything in it. -/
theorem relocate_append {array l : Location} (outside : ¬ l <+: array) (m : Location) :
    s.relocate array (l ++ m) = s.relocate array l ++ m := by
  induction l generalizing array with
  | nil => exact absurd List.nil_prefix outside
  | cons t l ih =>
    cases array with
    | nil => cases t <;> rfl
    | cons segment array =>
      by_cases same : t = segment
      · subst same
        simp only [List.prefix_cons_inj] at outside
        simp [ih outside]
      · simp [same]

/-! ### A splice in a node -/

theorem relocate_under_array (l array m : Location) :
    (s.under l).relocate array m = s.relocate array m := by
  fun_induction relocate s array m with
  | case1 => simp
  | case2 | case3 => rfl
  | case4 array t rest ih => simp [ih]
  | case5 segment array t rest different => simp [different]

theorem relocated_under (l m : Location) (s : Option Splice) :
    relocated (s.map (under l)).toList (l ++ m) = l ++ relocated s.toList m := by
  cases s with
  | none => rfl
  | some s =>
    change (s.under l).relocate (l ++ s.array) (l ++ m) = l ++ s.relocate s.array m
    rw [relocate_under_array, relocate_through]

theorem relocated_under_self (l : Location) (s : Option Splice) :
    relocated (s.map (under l)).toList l = l := by
  have moved := relocated_under l [] s
  cases s with
  | none => rfl
  | some s => simpa [relocated] using moved

/-! ## Ways that do not lead through the replaced element -/

variable {s}

theorem shiftIndex_inj {i j : Nat} (hi : i ≠ s.index) (hj : j ≠ s.index)
    (same : s.shiftIndex i = s.shiftIndex j) : i = j := by
  unfold shiftIndex at same
  split at same <;> split at same <;> omega

theorem prefix_of_relocate {array l m : Location} (hl : ¬ array ++ [.index s.index] <+: l)
    (hm : ¬ array ++ [.index s.index] <+: m) (h : s.relocate array l <+: s.relocate array m) :
    l <+: m := by
  induction array generalizing l m with
  | nil =>
    match l, m with
    | [], _ => exact List.nil_prefix
    | .key _ :: _, [] | .index _ :: _, [] => simp at h
    | .key k :: l, .key k' :: m => simpa using h
    | .key k :: l, .index j :: m => simp at h
    | .index i :: l, .key k :: m => simp at h
    | .index i :: l, .index j :: m =>
      simp only [List.nil_append, List.cons_prefix_cons, List.nil_prefix, and_true,
        Segment.index.injEq] at hl hm
      simp only [relocate, List.cons_prefix_cons, Segment.index.injEq] at h ⊢
      exact ⟨shiftIndex_inj (Ne.symm hl) (Ne.symm hm) h.1, h.2⟩
  | cons segment array ih =>
    match l, m with
    | [], _ => exact List.nil_prefix
    | t :: l, [] =>
      simp only [relocate] at h
      split at h <;> simp at h
    | t :: l, u :: m =>
      have heads : t = u := by
        simp only [relocate] at h
        split at h <;> split at h <;> exact (List.cons_prefix_cons.mp h).1
      subst heads
      by_cases same : t = segment
      · subst same
        simp only [List.cons_append, List.prefix_cons_inj] at hl hm
        simp only [relocate, if_true, List.prefix_cons_inj] at h ⊢
        exact ih hl hm h
      · simpa [same] using h

end Splice

theorem Compile.shifted_location (splices : List Splice) (call : DeferredCall) :
    (shifted splices call).context.location = Splice.relocated splices call.context.location := by
  simp only [shifted, Splice.shiftAfter_foldl]
  exact Splice.locate_moved splices call.context.steps

theorem Compile.shifted_frames (splices : List Splice) (call : DeferredCall) :
    (shifted splices call).context.frames = call.context.frames :=
  Context.frames_shiftAfter splices call.context

end SchemaLoom
