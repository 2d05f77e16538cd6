import Mathlib.Data.List.Basic
import SchemaLoom.Text.Search

/-!
# Laws of replacing text

A replacement takes every match away and goes on behind it. A character that the needle does not
have separates a text into parts that are replaced on their own, and characters with which the
needle does not begin stay in front.
-/

namespace SchemaLoom.Text

variable {needle : List Char} (replacement : List Char)

theorem replaceFrom_eq_drop (skip : Nat) (cs : List Char) :
    replaceFrom needle replacement skip cs = replaceAll needle replacement (cs.drop skip) := by
  induction cs generalizing skip with
  | nil => cases skip <;> simp [replaceFrom, replaceAll]
  | cons c cs ih =>
    cases skip with
    | zero => rfl
    | succ skip => simpa [replaceFrom] using ih skip

@[simp] theorem replaceAll_nil : replaceAll needle replacement [] = [] := rfl

theorem replaceAll_match (nonempty : needle ≠ []) (cs : List Char) :
    replaceAll needle replacement (needle ++ cs) =
      replacement ++ replaceAll needle replacement cs := by
  obtain ⟨c, rest, rfl⟩ := List.exists_cons_of_ne_nil nonempty
  have found : (c :: rest).isPrefixOf (c :: (rest ++ cs)) = true := by
    rw [List.isPrefixOf_iff_prefix, ← List.cons_append]
    exact List.prefix_append _ _
  rw [List.cons_append, replaceAll, replaceFrom, if_pos found, replaceFrom_eq_drop]
  simp

theorem replaceAll_cons {c : Char} {cs : List Char} (h : ¬ needle <+: c :: cs) :
    replaceAll needle replacement (c :: cs) = c :: replaceAll needle replacement cs := by
  rw [replaceAll, replaceFrom, if_neg (by rwa [List.isPrefixOf_iff_prefix])]
  rfl

theorem replaceAll_append_of_free {first : Char} (rest : List Char) {a : List Char} (b : List Char)
    (h : first ∉ a) :
    replaceAll (first :: rest) replacement (a ++ b) =
      a ++ replaceAll (first :: rest) replacement b := by
  induction a with
  | nil => rfl
  | cons c a ih =>
    simp only [List.mem_cons, not_or] at h
    have other : ¬ first :: rest <+: c :: (a ++ b) := fun found =>
      h.1 (List.cons_prefix_cons.1 found).1
    rw [List.cons_append, replaceAll_cons replacement other, ih h.2, List.cons_append]

theorem replaceAll_of_free {first : Char} (rest : List Char) {a : List Char} (h : first ∉ a) :
    replaceAll (first :: rest) replacement a = a := by
  simpa using replaceAll_append_of_free replacement rest [] h

theorem prefix_append_cons_iff {c : Char} (absent : c ∉ needle) (a b : List Char) :
    needle <+: a ++ c :: b ↔ needle <+: a := by
  refine ⟨fun ⟨t, eq⟩ => ?_, fun found => found.trans (List.prefix_append _ _)⟩
  rcases List.append_eq_append_iff.1 eq with ⟨a', rfl, -⟩ | ⟨c', rfl, eq'⟩
  · exact List.prefix_append _ _
  · cases c' with
    | nil => simp
    | cons d c' =>
      obtain rfl := (List.cons.inj eq').1
      exact absurd (by simp) absent

/-- A character that the needle does not have ends every match before it. -/
theorem replaceAll_append_cons {c : Char} (absent : c ∉ needle) (nonempty : needle ≠ [])
    (a b : List Char) :
    replaceAll needle replacement (a ++ c :: b) =
      replaceAll needle replacement a ++ c :: replaceAll needle replacement b := by
  induction length : a.length using Nat.strongRecOn generalizing a with
  | ind n ih =>
    by_cases found : needle <+: a
    · obtain ⟨t, rfl⟩ := found
      have shorter : t.length < n := by
        have := List.length_pos_iff.2 nonempty
        simp only [List.length_append] at length
        omega
      rw [List.append_assoc, replaceAll_match replacement nonempty, ih _ shorter t rfl,
        replaceAll_match replacement nonempty, List.append_assoc]
    · cases a with
      | nil =>
        have other : ¬ needle <+: c :: b := fun h =>
          found ((prefix_append_cons_iff absent [] b).1 h)
        simp [replaceAll_cons replacement other]
      | cons d a =>
        have other : ¬ needle <+: d :: (a ++ c :: b) := fun h =>
          found ((prefix_append_cons_iff absent (d :: a) b).1 h)
        have shorter : a.length < n := by simp only [List.length_cons] at length; omega
        rw [List.cons_append, replaceAll_cons replacement other, ih _ shorter a rfl,
          replaceAll_cons replacement found, List.cons_append]

end SchemaLoom.Text
