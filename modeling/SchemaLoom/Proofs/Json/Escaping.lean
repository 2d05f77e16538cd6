import SchemaLoom.Json.Writer
import SchemaLoom.Proofs.Text.Replacement

/-!
# Escaped text

Escaping works character by character, and a plain text, one without quotes, backslashes and control
characters, is its own escape. So a plain needle occurs in an escaped text exactly where it occurs
in the text itself, and replacing it before or after escaping is the same.
-/

namespace SchemaLoom.Json

/-- A character that is written as itself inside a string. -/
def IsPlain (c : Char) : Prop := c ≠ '"' ∧ c ≠ '\\' ∧ 0x20 ≤ c.toNat

instance (c : Char) : Decidable (IsPlain c) := inferInstanceAs (Decidable (_ ∧ _ ∧ _))

theorem escapeChar_of_isPlain {c : Char} (h : IsPlain c) : escapeChar c = [c] := by
  obtain ⟨quote, backslash, control⟩ := h
  have other : ∀ d : Char, d.toNat < 0x20 → c ≠ d := by
    rintro d low rfl
    omega
  simp only [escapeChar, if_neg quote, if_neg backslash, if_neg (other '\n' (by decide)),
    if_neg (other '\r' (by decide)), if_neg (other '\t' (by decide)),
    if_neg (other '\x08' (by decide)), if_neg (other '\x0c' (by decide)),
    if_neg (by omega : ¬ c.toNat < 0x20)]

theorem digitChar_ne {n : Nat} (h : n < 16) :
    Decimal.digitChar n ≠ '$' ∧ Decimal.digitChar n ≠ '"' ∧ Decimal.digitChar n ≠ '\\' := by
  revert n
  decide

/-- What a character that is not plain is written as: a backslash and characters that are neither
dollar signs, quotes nor backslashes, but for the quote and the backslash themselves. -/
theorem escapeChar_of_not_isPlain {c : Char} (h : ¬ IsPlain c) :
    ∃ d cs, escapeChar c = '\\' :: d :: cs ∧ d ≠ '$' ∧
      ∀ x ∈ cs, x ≠ '$' ∧ x ≠ '"' ∧ x ≠ '\\' := by
  unfold escapeChar
  split_ifs with quote backslash newLine return_ tab back feed control
  · exact ⟨'"', [], rfl, by decide, by simp⟩
  · exact ⟨'\\', [], rfl, by decide, by simp⟩
  · exact ⟨'n', [], rfl, by decide, by simp⟩
  · exact ⟨'r', [], rfl, by decide, by simp⟩
  · exact ⟨'t', [], rfl, by decide, by simp⟩
  · exact ⟨'b', [], rfl, by decide, by simp⟩
  · exact ⟨'f', [], rfl, by decide, by simp⟩
  · have high := digitChar_ne (by omega : c.toNat / 16 < 16)
    have low := digitChar_ne (by omega : c.toNat % 16 < 16)
    exact ⟨'u', _, rfl, by decide, by simp [high, low]⟩
  · exact absurd ⟨quote, backslash, by omega⟩ h

@[simp] theorem escape_nil : escape [] = [] := rfl

@[simp] theorem escape_cons (c : Char) (cs : List Char) :
    escape (c :: cs) = escapeChar c ++ escape cs := rfl

@[simp] theorem escape_append (a b : List Char) : escape (a ++ b) = escape a ++ escape b :=
  List.flatMap_append

theorem escape_of_isPlain {cs : List Char} (h : ∀ c ∈ cs, IsPlain c) : escape cs = cs := by
  induction cs with
  | nil => rfl
  | cons c cs ih =>
    rw [escape_cons, escapeChar_of_isPlain (h c List.mem_cons_self),
      ih fun d member => h d (List.mem_cons_of_mem _ member)]
    rfl

/-- A text reads on plainly in its escape. -/
theorem prefix_escape_iff {needle : List Char} (plain : ∀ c ∈ needle, IsPlain c) (cs : List Char) :
    needle <+: escape cs ↔ needle <+: cs := by
  induction needle generalizing cs with
  | nil => simp
  | cons n needle ih =>
    have first := plain n List.mem_cons_self
    cases cs with
    | nil => simp
    | cons c cs =>
      by_cases same : IsPlain c
      · rw [escape_cons, escapeChar_of_isPlain same, List.singleton_append, List.cons_prefix_cons,
          List.cons_prefix_cons, ih fun d member => plain d (List.mem_cons_of_mem _ member)]
      · obtain ⟨d, ds, eq, -⟩ := escapeChar_of_not_isPlain same
        rw [escape_cons, eq, List.cons_append, List.cons_prefix_cons, List.cons_prefix_cons]
        constructor
        · rintro ⟨rfl, -⟩
          exact absurd rfl first.2.1
        · rintro ⟨rfl, -⟩
          exact absurd first same

/-- A plain text stands between the quotes of a string exactly when it is the string. -/
theorem prefix_escape_quote_iff {needle : List Char} (plain : ∀ c ∈ needle, IsPlain c)
    (cs rest : List Char) : needle ++ ['"'] <+: escape cs ++ '"' :: rest ↔ cs = needle := by
  induction needle generalizing cs with
  | nil =>
    cases cs with
    | nil => simp
    | cons c cs =>
      by_cases same : IsPlain c
      · simpa [escapeChar_of_isPlain same] using Ne.symm same.1
      · obtain ⟨d, ds, eq, -⟩ := escapeChar_of_not_isPlain same
        simp [eq]
  | cons n needle ih =>
    have first := plain n List.mem_cons_self
    cases cs with
    | nil => simp [first.1]
    | cons c cs =>
      by_cases same : IsPlain c
      · rw [escape_cons, escapeChar_of_isPlain same, List.singleton_append, List.cons_append,
          List.cons_append, List.cons_prefix_cons,
          ih fun d member => plain d (List.mem_cons_of_mem _ member), List.cons.injEq,
          eq_comm (a := n)]
      · obtain ⟨d, ds, eq, -⟩ := escapeChar_of_not_isPlain same
        rw [escape_cons, eq, List.cons_append, List.cons_append, List.cons_append,
          List.cons_prefix_cons, List.cons.injEq]
        constructor
        · rintro ⟨rfl, -⟩
          exact absurd rfl first.2.1
        · rintro ⟨rfl, -⟩
          exact absurd first same

open Text in
/-- A plain needle that begins with a dollar sign is replaced before or after escaping. -/
theorem replaceAll_escape {name : List Char} (plain : ∀ c ∈ name, IsPlain c)
    (replacement cs : List Char) :
    replaceAll ('$' :: name) (escape replacement) (escape cs) =
      escape (replaceAll ('$' :: name) replacement cs) := by
  have needle : ∀ c ∈ '$' :: name, IsPlain c := by
    simp only [List.mem_cons, forall_eq_or_imp]
    exact ⟨by decide, plain⟩
  induction length : cs.length using Nat.strongRecOn generalizing cs with
  | ind n ih =>
    by_cases found : '$' :: name <+: cs
    · obtain ⟨t, rfl⟩ := found
      have shorter : t.length < n := by simp at length; omega
      rw [escape_append, escape_of_isPlain needle, replaceAll_match _ (by simp), ih _ shorter t rfl,
        replaceAll_match _ (by simp), escape_append]
    · cases cs with
      | nil => rfl
      | cons c cs =>
        have shorter : cs.length < n := by simp at length; omega
        rw [replaceAll_cons _ found, escape_cons, escape_cons, ← ih _ shorter cs rfl]
        by_cases same : IsPlain c
        · have other : ¬ '$' :: name <+: c :: escape cs := by
            rw [← prefix_escape_iff needle, escape_cons, escapeChar_of_isPlain same] at found
            exact found
          rw [escapeChar_of_isPlain same, List.singleton_append, replaceAll_cons _ other,
            List.singleton_append]
        · obtain ⟨d, ds, eq, other, others⟩ := escapeChar_of_not_isPlain same
          rw [eq]
          apply replaceAll_append_of_free
          simp only [List.mem_cons, not_or]
          exact ⟨by decide, Ne.symm other, fun member => (others _ member).1 rfl⟩

end SchemaLoom.Json
