import SchemaLoom.Proofs.Dependencies

/-!
# Edges that are live

The graph after a series of updates has exactly the edges that were recorded, between two
different places, and that no later one dropped.
-/

namespace SchemaLoom.Dependencies

variable {d : Dependencies} {p q a b : Path}

theorem has_remove : (d.remove a).Has p q ↔ d.Has p q ∧ a.same p = false ∧ a.same q = false := by
  have kept : (d.remove a).Has p q ↔ (d.forget a).Has p q ∧ a.same q = false := by
    constructor
    · rintro ⟨e, mem, hi, hm⟩
      obtain ⟨mem, other⟩ := List.mem_filter.mp mem
      refine ⟨⟨e, mem, hi, hm⟩, ?_⟩
      rw [Path.same_comm, ← Path.same_congr (Path.same_iff.mp hm)]
      simpa using other
    · rintro ⟨⟨e, mem, hi, hm⟩, other⟩
      refine ⟨e, List.mem_filter.mpr ⟨mem, ?_⟩, hi, hm⟩
      rw [Path.same_comm, ← Path.same_congr (Path.same_iff.mp hm)] at other
      simp [other]
  rw [kept, has_forget, and_assoc]

inductive Update where
  | record (importer imported : Path)
  | forget (importer : Path)
  | remove (path : Path)
deriving DecidableEq, Repr

def Update.apply (d : Dependencies) : Update → Dependencies
  | .record importer imported => d.record importer imported
  | .forget importer => d.forget importer
  | .remove path => d.remove path

/-- The graph that updates make up, one after the other. -/
def after (updates : List Update) : Dependencies :=
  updates.foldl Update.apply empty

/-- Whether an update takes the edge between two paths away. -/
def Update.Drops (p q : Path) : Update → Prop
  | .record _ _ => False
  | .forget importer => importer.same p = true
  | .remove path => path.same p = true ∨ path.same q = true

def Update.Records (p q : Path) : Update → Prop
  | .record importer imported =>
    importer.same imported = false ∧ importer.same p = true ∧ imported.same q = true
  | _ => False

/-- An edge that was recorded between two different places and not dropped since. -/
def Live (updates : List Update) (p q : Path) : Prop :=
  ∃ before o since, updates = before ++ o :: since ∧ o.Records p q ∧ ∀ o ∈ since, ¬ o.Drops p q

theorem Update.has_apply (o : Update) :
    (o.apply d).Has p q ↔ o.Records p q ∨ d.Has p q ∧ ¬ o.Drops p q := by
  cases o with
  | record importer imported =>
    simp only [apply, Records, Drops, has_record, not_false_eq_true, and_true]
    exact or_comm
  | forget importer => simp [apply, Records, Drops, has_forget]
  | remove path => simp [apply, Records, Drops, has_remove]

theorem not_live_nil : ¬ Live [] p q := by
  rintro ⟨before, o, since, eq, -⟩
  simp at eq

theorem live_concat {updates : List Update} {o : Update} :
    Live (updates ++ [o]) p q ↔ o.Records p q ∨ Live updates p q ∧ ¬ o.Drops p q := by
  constructor
  · rintro ⟨before, r, since, eq, records, kept⟩
    rcases List.eq_nil_or_concat since with rfl | ⟨since, last, rfl⟩
    · obtain ⟨-, last⟩ := List.append_inj' eq rfl
      obtain rfl := List.singleton_inj.mp last
      exact .inl records
    · rw [List.concat_eq_append, ← List.cons_append, ← List.append_assoc] at eq
      rw [List.concat_eq_append] at kept
      obtain ⟨rfl, last⟩ := List.append_inj' eq rfl
      obtain rfl := List.singleton_inj.mp last
      refine .inr ⟨⟨before, r, since, rfl, records, fun o mem => kept o (by simp [mem])⟩, ?_⟩
      exact kept o (by simp)
  · rintro (records | ⟨⟨before, r, since, rfl, records, kept⟩, keeps⟩)
    · exact ⟨updates, o, [], rfl, records, by simp⟩
    · refine ⟨before, r, since ++ [o], by simp, records, fun s mem => ?_⟩
      rcases List.mem_append.mp mem with mem | mem
      · exact kept s mem
      · obtain rfl := List.mem_singleton.mp mem
        exact keeps

theorem has_after (updates : List Update) :
    (after updates).Has p q ↔ Live updates p q := by
  induction updates using List.reverseRecOn with
  | nil => simp [after, not_live_nil]
  | append_singleton updates o ih =>
    have step : after (updates ++ [o]) = o.apply (after updates) := by simp [after]
    rw [step, o.has_apply, ih, live_concat]

end SchemaLoom.Dependencies
