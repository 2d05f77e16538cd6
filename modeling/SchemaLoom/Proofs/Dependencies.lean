import SchemaLoom.Dependencies
import SchemaLoom.Proofs.Path.Components

/-!
# Edges of the import graph

Recording adds one edge, forgetting removes those of one importer, and nothing else changes. Paths
count as their components.
-/

namespace SchemaLoom.Dependencies

variable {d : Dependencies} {p q a b : Path}

/-- An edge between two paths, whatever way they are written. -/
def Has (d : Dependencies) (p q : Path) : Prop :=
  ∃ e ∈ d.edges, e.importer.same p = true ∧ e.imported.same q = true

@[simp] theorem not_has_empty : ¬ empty.Has p q := by simp [Has, empty]

theorem Has.congr {p' q' : Path} (hp : p.same p' = true) (hq : q.same q' = true)
    (h : d.Has p q) : d.Has p' q' := by
  obtain ⟨e, mem, hi, hm⟩ := h
  rw [Path.same_iff] at *
  exact ⟨e, mem, Path.same_iff.mpr (hi.trans hp), Path.same_iff.mpr (hm.trans hq)⟩

theorem has_record : (d.record a b).Has p q ↔
    d.Has p q ∨ a.same b = false ∧ a.same p = true ∧ b.same q = true := by
  unfold record
  by_cases self : a.same b = true
  · simp [self]
  · have hf : a.same b = false := by simpa using self
    by_cases there : d.edges.any (fun e => e.importer.same a && e.imported.same b) = true
    · rw [if_pos (by simp [there])]
      constructor
      · exact .inl
      · rintro (h | ⟨-, hp, hq⟩)
        · exact h
        · obtain ⟨e, mem, he⟩ := List.any_eq_true.mp there
          rw [Bool.and_eq_true] at he
          exact Has.congr hp hq ⟨e, mem, he.1, he.2⟩
    · rw [if_neg (by simpa [hf] using there)]
      constructor
      · rintro ⟨e, mem, hi, hm⟩
        rcases List.mem_append.mp mem with mem | mem
        · exact .inl ⟨e, mem, hi, hm⟩
        · obtain rfl := List.mem_singleton.mp mem
          exact .inr ⟨hf, hi, hm⟩
      · rintro (⟨e, mem, hi, hm⟩ | ⟨-, hp, hq⟩)
        · exact ⟨e, List.mem_append_left _ mem, hi, hm⟩
        · exact ⟨⟨a, b⟩, by simp, hp, hq⟩

theorem has_forget : (d.forget a).Has p q ↔ d.Has p q ∧ a.same p = false := by
  unfold forget Has
  constructor
  · rintro ⟨e, mem, hi, hm⟩
    obtain ⟨mem, hn⟩ := List.mem_filter.mp mem
    refine ⟨⟨e, mem, hi, hm⟩, ?_⟩
    rw [Path.same_comm, ← Path.same_congr (Path.same_iff.mp hi)]
    simpa using hn
  · rintro ⟨⟨e, mem, hi, hm⟩, hn⟩
    refine ⟨e, List.mem_filter.mpr ⟨mem, ?_⟩, hi, hm⟩
    rw [Path.same_comm, ← Path.same_congr (Path.same_iff.mp hi)] at hn
    simp [hn]

theorem forget_subset (d : Dependencies) (a : Path) : (d.forget a).edges ⊆ d.edges :=
  List.filter_sublist.subset

theorem remove_subset (d : Dependencies) (a : Path) : (d.remove a).edges ⊆ d.edges :=
  List.Subset.trans List.filter_sublist.subset (d.forget_subset a)

/-- All edges lead from admitted templates to admitted ones. -/
def Joins (d : Dependencies) (A : Path → Prop) : Prop :=
  ∀ e ∈ d.edges, A e.importer ∧ A e.imported

namespace Joins

variable {A : Path → Prop}

theorem empty : Dependencies.empty.Joins A := fun _ mem => absurd mem List.not_mem_nil

theorem subset (h : d.Joins A) {d' : Dependencies} (fewer : d'.edges ⊆ d.edges) : d'.Joins A :=
  fun e mem => h e (fewer mem)

theorem record (h : d.Joins A) (ha : A a) (hb : A b) : (d.record a b).Joins A := by
  intro e mem
  unfold Dependencies.record at mem
  split at mem
  · exact h e mem
  · rcases List.mem_append.mp mem with mem | mem
    · exact h e mem
    · obtain rfl := List.mem_singleton.mp mem
      exact ⟨ha, hb⟩

end Joins

end SchemaLoom.Dependencies
