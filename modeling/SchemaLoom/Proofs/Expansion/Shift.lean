import SchemaLoom.FieldExpansion
import SchemaLoom.Session.Compile

/-!
# The way of a pending call

A splice changes one index on the way of a call, if the way leads through the spliced array behind
the replaced element, and nothing else: neither the frames on the way nor, therefore, the tokens
that a field may use.
-/

namespace SchemaLoom

open Context (shiftSteps)

/-- The location that steps lead to. -/
def Step.locate (steps : List Step) : Location := steps.map Step.segment

@[simp] theorem Step.locate_append (a b : List Step) : locate (a ++ b) = locate a ++ locate b :=
  List.map_append

@[simp] theorem Step.locate_cons (step : Step) (steps : List Step) :
    locate (step :: steps) = step.segment :: locate steps := rfl

@[simp] theorem Step.locate_nil : locate [] = [] := rfl

namespace Splice

theorem shiftSteps_frames (s : Splice) (array : Location) (steps : List Step) :
    (shiftSteps s array steps).map Step.frame = steps.map Step.frame := by
  fun_induction shiftSteps s array steps with
  | case1 | case2 | case3 | case5 => rfl
  | case4 _ _ _ ih => simp [ih]

theorem shiftSteps_outside (s : Splice) {array : Location} {steps : List Step}
    (outside : ¬ array <+: Step.locate steps) : shiftSteps s array steps = steps := by
  fun_induction shiftSteps s array steps with
  | case1 | case3 | case5 => rfl
  | case2 => exact absurd List.nil_prefix outside
  | case4 array step rest ih =>
    simp only [Step.locate_cons, List.prefix_cons_inj] at outside
    rw [ih outside]

theorem shiftSteps_through (s : Splice) (steps rest : List Step) (i : Nat) (f : Frame) :
    shiftSteps s (Step.locate steps) (steps ++ ⟨.index i, f⟩ :: rest) =
      steps ++ ⟨.index (s.shiftIndex i), f⟩ :: rest := by
  induction steps with
  | nil => rfl
  | cons step steps ih => simp [shiftSteps, ih]

theorem shiftSteps_end (s : Splice) (steps : List Step) :
    shiftSteps s (Step.locate steps) steps = steps := by
  induction steps with
  | nil => rfl
  | cons step steps ih => simp [shiftSteps, ih]

/-- The steps after splices, one after the other. -/
def moved (splices : List Splice) (steps : List Step) : List Step :=
  splices.foldl (fun steps s => shiftSteps s s.array steps) steps

@[simp] theorem moved_nil (steps : List Step) : moved [] steps = steps := rfl

theorem moved_append (a b : List Splice) (steps : List Step) :
    moved (a ++ b) steps = moved b (moved a steps) := List.foldl_append

theorem moved_frames (splices : List Splice) (steps : List Step) :
    (moved splices steps).map Step.frame = steps.map Step.frame := by
  induction splices generalizing steps with
  | nil => rfl
  | cons s splices ih =>
    change (moved splices (shiftSteps s s.array steps)).map Step.frame = _
    rw [ih, shiftSteps_frames]

theorem shiftAfter_foldl (splices : List Splice) (c : Context) :
    splices.foldl Context.shiftAfter c = ⟨c.root, moved splices c.steps⟩ := by
  induction splices generalizing c with
  | nil => rfl
  | cons s splices ih => simp [List.foldl_cons, ih, Context.shiftAfter, moved]

end Splice

theorem Compile.shifted_eq (splices : List Splice) (c : Context) (action : Action) :
    shifted splices ⟨c, action⟩ = ⟨⟨c.root, Splice.moved splices c.steps⟩, action⟩ := by
  simp [shifted, Splice.shiftAfter_foldl]

namespace Context

section Congruence

variable {c d : Context}

theorem nearestAncestor_congr (same : c.frames = d.frames) (a : Annotation) :
    c.nearestAncestor a = d.nearestAncestor a := by
  simp [nearestAncestor, same]

theorem nearest_congr (same : c.frames = d.frames) (root : c.root = d.root) (a : Annotation) :
    c.nearest a = d.nearest a := by
  simp [nearest, nearestAncestor_congr same, current, same, root]

theorem table_congr (same : c.frames = d.frames) (root : c.root = d.root)
    (key fileName id : String) : c.table key fileName id = d.table key fileName id := by
  have annotationFor : c.annotationFor = d.annotationFor := by
    funext key a
    simp [annotationFor, nearestAncestor_congr same, nearest_congr same root]
  simp only [table, annotationFor]

theorem frames_shiftAfter (splices : List Splice) (c : Context) :
    (splices.foldl shiftAfter c).frames = c.frames := by
  rw [Splice.shiftAfter_foldl, frames, frames, Splice.moved_frames]

theorem root_shiftAfter (splices : List Splice) (c : Context) :
    (splices.foldl shiftAfter c).root = c.root := by
  rw [Splice.shiftAfter_foldl]

end Congruence

end Context

end SchemaLoom
