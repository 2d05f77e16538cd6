import Mathlib.Data.List.Nodup
import SchemaLoom.Diagnostic

/-!
# Recording diagnostics

A list of diagnostics holds what was recorded, each one once.
-/

namespace SchemaLoom.Diagnostics

variable {d : Diagnostic} {ds : Diagnostics}

theorem push_of_mem (known : d ∈ ds.items) : ds.push d = (false, ds) :=
  if_pos ((ds.mem_seen d).mpr known)

theorem push_of_not_mem (fresh : d ∉ ds.items) :
    (ds.push d).1 = true ∧ (ds.push d).2.items = ds.items ++ [d] := by
  unfold push
  rw [if_neg (fun known => fresh ((ds.mem_seen d).mp known))]
  exact ⟨rfl, rfl⟩

theorem mem_record {e : Diagnostic} : d ∈ (ds.record e).items ↔ d ∈ ds.items ∨ d = e := by
  by_cases known : e ∈ ds.items
  · rw [record, push_of_mem known]
    exact ⟨.inl, fun h => h.elim id fun same => same ▸ known⟩
  · rw [record, (push_of_not_mem known).2]
    simp

theorem nodup_record (e : Diagnostic) (once : ds.items.Nodup) : (ds.record e).items.Nodup := by
  by_cases known : e ∈ ds.items
  · rw [record, push_of_mem known]
    exact once
  · rw [record, (push_of_not_mem known).2]
    exact List.nodup_append'.mpr ⟨once, List.nodup_singleton e, by simpa using known⟩

theorem mem_recordAll {more : List Diagnostic} :
    d ∈ (ds.recordAll more).items ↔ d ∈ ds.items ∨ d ∈ more := by
  induction more generalizing ds with
  | nil => simp [recordAll]
  | cons e more ih =>
    rw [recordAll, List.foldl_cons, ← recordAll, ih, mem_record, List.mem_cons, or_assoc]

theorem recordAll_of_subset {more : List Diagnostic} (there : more ⊆ ds.items) :
    ds.recordAll more = ds := by
  induction more with
  | nil => rfl
  | cons e more ih =>
    rw [List.cons_subset] at there
    rw [recordAll, List.foldl_cons, record, push_of_mem there.1, ← recordAll, ih there.2]

theorem nodup_recordAll (more : List Diagnostic) (once : ds.items.Nodup) :
    (ds.recordAll more).items.Nodup := by
  induction more generalizing ds with
  | nil => exact once
  | cons e more ih => exact ih (nodup_record e once)

end SchemaLoom.Diagnostics
