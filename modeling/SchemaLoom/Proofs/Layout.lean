import SchemaLoom.Proofs.Path.Names
import SchemaLoom.Reference.Resolution

/-!
# Trees that are apart

The source root is canonical and the output root is an absolute path without `..`, neither of them
in the other. What an import finds lies outside the output tree, and what is written for a template
outside it lies inside.
-/

namespace SchemaLoom

open SchemaLoom.Path FileSystem

/-- The second place is somewhere inside the first. -/
def Inside (tree place : Place) : Prop := tree <+: place ∧ place ≠ tree

instance (tree place : Place) : Decidable (Inside tree place) :=
  inferInstanceAs (Decidable (_ ∧ _))

theorem Inside.iff {tree place : Place} :
    Inside tree place ↔ ∃ s rest, place = tree ++ s :: rest := by
  constructor
  · rintro ⟨⟨rest, rfl⟩, h⟩
    cases rest with
    | nil => simp at h
    | cons s rest => exact ⟨s, rest, rfl⟩
  · rintro ⟨s, rest, rfl⟩
    exact ⟨List.prefix_append _ _, by simp⟩

theorem Inside.parent {tree a : Place} {s : String} (h : Inside tree (a ++ [s])) : tree <+: a := by
  obtain ⟨u, rest, he⟩ := Inside.iff.mp h
  rcases List.eq_nil_or_concat (u :: rest) with hn | ⟨init, v, hc⟩
  · simp at hn
  · rw [hc, List.concat_eq_append, ← List.append_assoc] at he
    exact ⟨init, (List.append_inj' he rfl).1.symm⟩

/-- Neither place is the other or around it. -/
def Apart (a b : Place) : Prop := ¬ a <+: b ∧ ¬ b <+: a

instance (a b : Place) : Decidable (Apart a b) := inferInstanceAs (Decidable (_ ∧ _))

namespace Apart

variable {D T a b : Place} {s t : String}

theorem ne_nil (h : Apart D T) : D ≠ [] := by
  rintro rfl
  exact h.1 List.nil_prefix

theorem below (h : Apart D T) : Apart (D ++ b) T := by
  constructor
  · intro hp
    exact h.1 ((List.prefix_append D b).trans hp)
  · intro hp
    rcases List.prefix_or_prefix_of_prefix hp (List.prefix_append D b) with hs | hs
    · exact h.2 hs
    · exact h.1 hs

theorem not_inside (h : Apart D T) : ¬ Inside T D := fun inside => h.2 inside.1

theorem beside (h : Apart (a ++ [s]) T) : ¬ Inside T (a ++ [t]) := by
  intro inside
  exact h.2 (inside.parent.trans (List.prefix_append a [s]))

end Apart

/-- In a tree, or beside its root. -/
def Near (tree place : Place) : Prop :=
  tree <+: place ∨ ∃ a s t, tree = a ++ [s] ∧ place = a ++ [t]

theorem Near.not_inside {S T place : Place} (h : Near S place) (apart : Apart S T) :
    ¬ Inside T place := by
  rcases h with ⟨b, rfl⟩ | ⟨a, s, t, rfl, rfl⟩
  · exact apart.below.not_inside
  · exact apart.beside

namespace Layout

/-- The places of the two roots. -/
structure Trees (l : Layout) (S T : Place) : Prop where
  sourceAt : l.source = pathOf S
  valid : ValidPlace S
  outputAt : l.output.LeadsTo T
  apart : Apart S T

variable {l : Layout} {S T b : Place}

theorem sourceDirectory?_eq_some (source : l.source.LeadsTo S) (below : S ≠ [])
    {relative : String} {directory : Path} (hd : l.sourceDirectory? relative = some directory) :
    ∃ b, ValidPlace (S ++ b) ∧ directory = pathOf (S ++ b) := by
  unfold Layout.sourceDirectory? at hd
  simp only at hd
  split at hd
  · rename_i hs
    obtain ⟨b, hv, he⟩ := normalize_startsWith (join_isAbsolute _ source.isAbsolute) source below hs
    exact ⟨b, hv, (Option.some.inj hd).symm.trans he⟩
  · simp at hd

namespace Trees

variable (h : l.Trees S T)
include h

theorem source : l.source.LeadsTo S := h.sourceAt ▸ leadsTo_pathOf h.valid

theorem sourceDirectory? {relative : String} {directory : Path}
    (hd : l.sourceDirectory? relative = some directory) :
    ∃ b, ValidPlace (S ++ b) ∧ directory = pathOf (S ++ b) :=
  sourceDirectory?_eq_some h.source h.apart.ne_nil hd

end Trees

/-- A reference resolves to a place in the source tree. It names that place when it is a template's,
and otherwise templates beside it. -/
theorem mem_candidates (source : l.source.LeadsTo S) (below : S ≠ [])
    {relative file : Path} (mem : file ∈ l.candidates relative) :
    ∃ b, ValidPlace (S ++ b) ∧ (l.source.join relative).normalize = pathOf (S ++ b) ∧
      ((pathOf (S ++ b)).isTemplate = true ∧ file = pathOf (S ++ b) ∨
        (pathOf (S ++ b)).isTemplate = false ∧ ∃ e ∈ templateExtensions, ∃ a s,
          S ++ b = a ++ [s] ∧ file = pathOf (a ++ [nameWith s e])) := by
  unfold Layout.candidates at mem
  simp only at mem
  split at mem
  · simp at mem
  · rename_i begins
    obtain ⟨b, hv, he⟩ := normalize_startsWith (join_isAbsolute relative source.isAbsolute) source
      below (by simpa using begins)
    refine ⟨b, hv, he, ?_⟩
    rw [he] at mem
    split at mem
    · rename_i template
      exact .inl ⟨template, List.mem_singleton.mp mem⟩
    · rename_i plain
      obtain ⟨e, known, rfl⟩ := List.mem_map.mp mem
      rcases List.eq_nil_or_concat (S ++ b) with empty | ⟨a, s, last⟩
      · exact absurd (List.append_eq_nil_iff.mp empty).1 below
      · rw [List.concat_eq_append] at last
        refine .inr ⟨by simpa using plain, e, known, a, s, last, ?_⟩
        rw [last]
        exact pathOf_extended a s _

theorem candidates_near (source : l.source.LeadsTo S) (below : S ≠ [])
    {relative file : Path} (mem : file ∈ l.candidates relative) :
    ∃ place, ValidPlace place ∧ file = pathOf place ∧ Near S place := by
  obtain ⟨b, hv, -, ⟨-, rfl⟩ | ⟨-, e, known, a, s, last, rfl⟩⟩ :=
    mem_candidates source below mem
  · exact ⟨_, hv, rfl, .inl (List.prefix_append S b)⟩
  · have name := isName_nameWith known (last ▸ hv).last.2.1
    refine ⟨_, (last ▸ hv).left.append (.singleton name), rfl, ?_⟩
    rcases List.eq_nil_or_concat b with rfl | ⟨c, t, rfl⟩
    · exact .inr ⟨a, s, _, by rw [← last, List.append_nil], rfl⟩
    · rw [List.concat_eq_append, ← List.append_assoc] at last
      obtain ⟨rfl, -⟩ := List.append_inj' last rfl
      exact .inl ⟨c ++ [nameWith s e], by rw [List.append_assoc]⟩

theorem Trees.candidates (h : l.Trees S T) {relative file : Path}
    (mem : file ∈ l.candidates relative) :
    ∃ place, ValidPlace place ∧ file = pathOf place ∧ ¬ Inside T place := by
  obtain ⟨place, hv, rfl, near⟩ := candidates_near h.source h.apart.ne_nil mem
  exact ⟨place, hv, rfl, near.not_inside h.apart⟩

/-! ## Outputs -/

theorem outputFor_eq (l : Layout) (file : Path) :
    ∃ relative, l.outputFor file = (l.output.join relative).withExtension outputExtension := by
  unfold outputFor
  exact ⟨_, rfl⟩

theorem outputFor_isAbsolute (h : l.output.isAbsolute = true) (file : Path) :
    (l.outputFor file).isAbsolute = true := by
  obtain ⟨relative, eq⟩ := l.outputFor_eq file
  rw [eq]
  exact withExtension_isAbsolute (join_isAbsolute _ h) _

theorem isAbsolute_names {a : Place} (h : ValidPlace a) :
    (ofChars (Text.joinWith ['/'] (a.map String.toList))).isAbsolute = false := by
  apply isAbsolute_joinWith h.free
  cases a with
  | nil => simp
  | cons s a =>
    have name : s ≠ "" := (h s List.mem_cons_self).1
    simpa using name

/-- An output stands in a directory of the output tree; its path ends in a name or in `..`. -/
theorem Trees.outputFor (h : l.Trees S T) {place : Place} (hv : ValidPlace place)
    (ne : place ≠ []) (notRoot : place ≠ S) :
    ∃ a c, (l.outputFor (pathOf place)).components = .root :: (T ++ a).map .name ++ [c] ∧
      (c = .up ∨ ∃ s, c = .name s) := by
  obtain ⟨a, s, hr⟩ : ∃ a s, ((l.sourceRelative? (pathOf place)).getD
      ⟨(pathOf place).fileName?.getD ""⟩) =
        ofChars (Text.joinWith ['/'] ((a ++ [s]).map String.toList)) ∧ ValidPlace (a ++ [s]) := by
    unfold sourceRelative?
    rw [h.sourceAt]
    by_cases below : S <+: place
    · obtain ⟨b, rfl⟩ := below
      rw [below?_pathOf hv]
      rcases List.eq_nil_or_concat b with rfl | ⟨a, s, rfl⟩
      · simp at notRoot
      · rw [List.concat_eq_append] at *
        exact ⟨a, s, rfl, hv.right⟩
    · have hs : (pathOf place).startsWith (pathOf S) = false := by
        rw [Bool.eq_false_iff]
        exact fun hs => below (((leadsTo_pathOf hv).startsWith_iff (leadsTo_pathOf h.valid)).mp hs)
      rcases List.eq_nil_or_concat place with rfl | ⟨a, s, rfl⟩
      · exact absurd rfl ne
      · rw [List.concat_eq_append] at *
        refine ⟨[], s, ?_, .singleton hv.last⟩
        simp only [below?, hs, Bool.false_eq_true, if_false, (leadsTo_pathOf hv).fileName?,
          Option.getD_some, Option.getD_none]
        exact ext_chars (by simp [Text.joinWith])
  have hl : (l.output.join ((l.sourceRelative? (pathOf place)).getD
      ⟨(pathOf place).fileName?.getD ""⟩)).LeadsTo (T ++ a ++ [s]) := by
    unfold LeadsTo
    rw [hr.1, components_join h.outputAt.isAbsolute (isAbsolute_names hr.2), h.outputAt,
      chars_ofChars, hr.2.steps]
    simp
  have ho : l.outputFor (pathOf place) = (l.output.join ((l.sourceRelative? (pathOf place)).getD
      ⟨(pathOf place).fileName?.getD ""⟩)).withExtension outputExtension := by
    unfold Layout.outputFor
    cases l.sourceRelative? (pathOf place) <;> rfl
  rw [ho]
  rcases hl.withExtension (e := outputExtension) (by decide) (by decide) with ⟨t, ht⟩ | hup
  · exact ⟨a, .name t, by simpa [LeadsTo] using ht, .inr ⟨t, rfl⟩⟩
  · exact ⟨a, .up, hup, .inl rfl⟩

end Layout

end SchemaLoom
