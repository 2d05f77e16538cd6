import Mathlib.Data.List.Basic
import Mathlib.Data.List.TakeDrop
import SchemaLoom.Context

/-!
# Contexts seen from a node on their way

Behind its first steps a context is that of a layer in the node which these steps lead to. Both
report the same slot, which depends only on the location of the layer and on the node around it.
-/

namespace SchemaLoom.Context

/-- The context as it is seen from a node on its way, behind the first steps. -/
def within (n : Nat) (c : Context) : Context := ⟨(c.frames[n]?).getD c.root, c.steps.drop n⟩

theorem length_frames (c : Context) : c.frames.length = c.location.length + 1 := by
  simp [frames, location]

theorem frames_within {n : Nat} {c : Context} (bound : n ≤ c.location.length) :
    (c.within n).frames = c.frames.drop n := by
  have inside : n < c.frames.length := by rw [length_frames]; omega
  rw [within, frames, List.getElem?_eq_getElem inside, Option.getD_some,
    List.drop_eq_getElem_cons inside, List.map_drop]
  rfl

theorem location_within (n : Nat) (c : Context) : (c.within n).location = c.location.drop n := by
  simp [within, location]

theorem location_push (c : Context) (s : Segment) (kind : FrameKind) (v : Json) :
    (c.push s kind v).location = c.location ++ [s] := by
  simp [location, push]

theorem current_push (c : Context) (s : Segment) (kind : FrameKind) (v : Json) :
    (c.push s kind v).current = .ofNode kind v := by
  simp [current, frames, push, List.getLast?_cons]

/-! ## The slot of a layer -/

theorem getLast?_steps (c : Context) :
    c.location.getLast? = c.steps.getLast?.map Step.segment := by
  simp [location]

theorem location_of_arraySlot? {c : Context} {array : Location} {i : Nat}
    (slot : c.arraySlot? = some (array, i)) : c.location = array ++ [.index i] := by
  unfold arraySlot? at slot
  split at slot
  · rename_i i' frame parent last _
    split at slot
    · simp only [Option.some.injEq, Prod.mk.injEq] at slot
      obtain ⟨rfl, rfl⟩ := slot
      have ends : c.location.getLast? = some (.index i') := by rw [getLast?_steps, last]; rfl
      exact (List.dropLast_append_getLast? _ (by simpa using ends)).symm
    · simp at slot
  · simp at slot

theorem arraySlot?_eq (c : Context) :
    c.arraySlot? = match c.location.getLast?, c.frames.dropLast.getLast? with
      | some (.index i), some parent =>
        if parent.isArray then some (c.location.dropLast, i) else none
      | _, _ => none := by
  unfold arraySlot?
  rw [getLast?_steps]
  cases c.steps.getLast? with
  | none => rfl
  | some step =>
    obtain ⟨segment, frame⟩ := step
    cases segment <;> cases c.frames.dropLast.getLast? <;> rfl

/-- The slot of a layer in a node, seen from around the node. -/
theorem arraySlot?_within {c d : Context} {l : Location} (location : c.location = l ++ d.location)
    (frames : d.frames = c.frames.drop l.length) (below : d.location ≠ []) :
    c.arraySlot? = d.arraySlot?.map fun r => (l ++ r.1, r.2) := by
  have last : c.location.getLast? = d.location.getLast? := by
    rw [location, List.getLast?_append_of_ne_nil _ below]
  have init : c.location.dropLast = l ++ d.location.dropLast := by
    rw [location, List.dropLast_append_of_ne_nil below]
  have around : c.frames.dropLast.getLast? = d.frames.dropLast.getLast? := by
    have length := c.length_frames
    rw [location, List.length_append] at length
    have positive := List.length_pos_iff.mpr below
    have cut : d.frames.dropLast = c.frames.dropLast.drop l.length := by
      rw [frames, List.dropLast_drop_eq_drop_dropLast]
    rw [cut, List.getLast?_drop, if_neg]
    simp only [List.length_dropLast]
    omega
  rw [arraySlot?_eq, arraySlot?_eq, last, init, around]
  cases d.location.getLast? with
  | none => rfl
  | some segment =>
    cases segment with
    | key k => rfl
    | index i =>
      cases d.frames.dropLast.getLast? with
      | none => rfl
      | some parent =>
        simp only
        split <;> rfl

end SchemaLoom.Context
