import Mathlib.Algebra.BigOperators.Group.List.Basic
import Mathlib.Algebra.GroupWithZero.Nat
import Mathlib.Data.List.DropRight
import SchemaLoom.Proofs.Diagnostic

/-!
# Diagnostics of a batch

Whatever was done with a list of diagnostics, it holds what was pushed since it was emptied last,
each diagnostic once and where it was pushed first. Draining the list and reporting it empty it, and
then every diagnostic is new again.
-/

namespace SchemaLoom

theorem DiagnosticKind.sum_all (kind : DiagnosticKind) :
    (all.map fun k => if kind = k then 1 else 0).sum = 1 := by
  cases kind <;> rfl

namespace Diagnostics

variable {d : Diagnostic} {ds : Diagnostics}

inductive Operation where
  | push (d : Diagnostic)
  | drain
  | report
deriving DecidableEq, Repr

def Operation.apply (ds : Diagnostics) : Operation → Diagnostics
  | .push d => (ds.push d).2
  | .drain => ds.drain.2
  | .report => ds.report.2

/-- The list that operations make up, one after the other. -/
def after (ops : List Operation) : Diagnostics := ops.foldl Operation.apply empty

theorem after_concat (ops : List Operation) (o : Operation) :
    after (ops ++ [o]) = o.apply (after ops) := by
  simp [after]

/-! ## What is pending -/

def Operation.pushed? : Operation → Option Diagnostic
  | .push d => some d
  | .drain | .report => none

/-- What was pushed behind the last operation that empties the list. -/
def pending (ops : List Operation) : List Diagnostic :=
  (ops.rtakeWhile fun o => o.pushed?.isSome).filterMap Operation.pushed?

theorem pending_push (ops : List Operation) (d : Diagnostic) :
    pending (ops ++ [.push d]) = pending ops ++ [d] := by
  unfold pending
  rw [List.rtakeWhile_concat_pos _ _ _ rfl, List.filterMap_append]
  rfl

theorem pending_emptied (ops : List Operation) {o : Operation} (empties : o.pushed? = none) :
    pending (ops ++ [o]) = [] := by
  unfold pending
  rw [List.rtakeWhile_concat_neg _ _ _ (by simp [empties])]
  rfl

theorem eraseDups_concat {α : Type} [DecidableEq α] (as : List α) (a : α) :
    (as ++ [a]).eraseDups = if a ∈ as then as.eraseDups else as.eraseDups ++ [a] := by
  rw [List.eraseDups_append]
  by_cases known : a ∈ as <;> simp [List.removeAll, known, List.eraseDups_cons]

/-- The list holds what is pending, each diagnostic once and where it was pushed first. -/
theorem items_after (ops : List Operation) : (after ops).items = (pending ops).eraseDups := by
  induction ops using List.reverseRecOn with
  | nil => rfl
  | append_singleton ops o ih =>
    rw [after_concat]
    cases o with
    | drain | report =>
      rw [pending_emptied ops rfl]
      rfl
    | push d =>
      have there : d ∈ (after ops).items ↔ d ∈ pending ops := by rw [ih, List.mem_eraseDups]
      rw [pending_push, eraseDups_concat, ← ih]
      by_cases known : d ∈ pending ops
      · rw [if_pos known, Operation.apply, push_of_mem (there.mpr known)]
      · rw [if_neg known]
        exact (push_of_not_mem (mt there.mp known)).2

/-! ## Answers -/

theorem push_iff : (ds.push d).1 = true ↔ d ∉ ds.items := by
  by_cases known : d ∈ ds.items
  · simp [push_of_mem known, known]
  · simp [push_of_not_mem known, known]

theorem sum_length_filter (items : List Diagnostic) :
    (DiagnosticKind.all.map fun kind => (items.filter fun d => d.kind = kind).length).sum =
      items.length := by
  induction items with
  | nil => rfl
  | cons d items ih =>
    have split : ∀ kind, ((d :: items).filter fun d => d.kind = kind).length =
        (items.filter fun d => d.kind = kind).length + if d.kind = kind then 1 else 0 := by
      intro kind
      by_cases same : d.kind = kind <;> simp [same]
    simp only [split, List.sum_map_add, ih, d.kind.sum_all, List.length_cons]

/-- After any operations the list holds what was pushed since it was emptied last, each diagnostic
once and in the order of the first pushes. A push adds a diagnostic exactly if none like it is
there. Each diagnostic counts for one kind. Draining the list and reporting it give all of it, and
then every diagnostic can be recorded again. -/
theorem after_follows_history (ops : List Operation) :
    (after ops).items = (pending ops).eraseDups ∧
    (∀ d, ((after ops).push d).1 = true ↔
      ¬ ∃ e ∈ (after ops).items, e.kind = d.kind ∧ e.path = d.path ∧ e.message = d.message) ∧
    (DiagnosticKind.all.map fun kind => (after ops).count kind).sum = (after ops).size ∧
    (after ops).drain.1 = (after ops).items ∧
    (after ops).report.1 = (after ops).items.map Diagnostic.line ∧
    ∀ d, ((after (ops ++ [.drain])).push d).1 = true ∧
      ((after (ops ++ [.report])).push d).1 = true := by
  have fresh : ∀ (o : Operation) (d : Diagnostic), o.pushed? = none →
      ((after (ops ++ [o])).push d).1 = true := by
    intro o d empties
    rw [push_iff, items_after, pending_emptied ops empties]
    exact List.not_mem_nil
  refine ⟨items_after ops, fun d => ?_, sum_length_filter _, rfl, rfl, fun d =>
    ⟨fresh .drain d rfl, fresh .report d rfl⟩⟩
  rw [push_iff]
  refine not_congr ⟨fun there => ⟨d, there, rfl, rfl, rfl⟩, ?_⟩
  rintro ⟨⟨kind, path, message⟩, there, rfl, rfl, rfl⟩
  exact there

end Diagnostics

end SchemaLoom
