import SchemaLoom.Proofs.Path.Components
import SchemaLoom.Text.Blank

/-!
# Trimming, finding and lines

Trimming leaves the text between the characters that are trimmed at either end, the only such text
that neither begins nor ends with one. The lines that are joined by line breaks are read back, but
for an empty one at the end.
-/

namespace SchemaLoom.Text

variable {p : Char → Bool} {a b w cs : List Char}

/-- A text that neither begins nor ends with a character to be trimmed. -/
structure Tight (p : Char → Bool) (w : List Char) : Prop where
  head : ∀ c, w.head? = some c → p c = false
  last : ∀ c, w.getLast? = some c → p c = false

theorem Tight.of_forall (kept : ∀ c ∈ w, p c = false) : Tight p w :=
  ⟨fun c first => kept c (List.mem_of_head? first), fun c last =>
    kept c (List.mem_of_getLast? last)⟩

theorem trim_eq_trimBoth (cs : List Char) : trim cs = trimBoth isBlank cs := rfl

theorem dropWhile_eq_self (h : ∀ c, w.head? = some c → p c = false) : w.dropWhile p = w := by
  cases w with
  | nil => rfl
  | cons c w => rw [List.dropWhile_cons_of_neg (by simpa using h c rfl)]

theorem dropWhileEnd_append (hb : ∀ c ∈ b, p c = true) (w : List Char) :
    dropWhileEnd p (w ++ b) = dropWhileEnd p w := by
  rw [dropWhileEnd, List.reverse_append,
    List.dropWhile_append_of_pos fun c member => hb c (List.mem_reverse.mp member), dropWhileEnd]

theorem dropWhileEnd_eq_self (h : ∀ c, w.getLast? = some c → p c = false) :
    dropWhileEnd p w = w := by
  rw [dropWhileEnd, dropWhile_eq_self fun c first => h c (List.head?_reverse ▸ first),
    List.reverse_reverse]

theorem trimBoth_pad (ha : ∀ c ∈ a, p c = true) (hb : ∀ c ∈ b, p c = true) (w : List Char) :
    trimBoth p (a ++ w ++ b) = trimBoth p w := by
  rw [List.append_assoc, trimBoth, List.dropWhile_append_of_pos ha, List.dropWhile_append, trimBoth]
  split
  · rename_i empty
    have none : b.dropWhile p = [] := List.dropWhile_eq_nil_iff.mpr hb
    rw [List.isEmpty_iff.mp empty, none]
  · exact dropWhileEnd_append hb _

theorem trimBoth_eq_self (tight : Tight p w) : trimBoth p w = w := by
  rw [trimBoth, dropWhile_eq_self tight.head, dropWhileEnd_eq_self tight.last]

theorem not_of_head?_dropWhile {c : Char} (first : (cs.dropWhile p).head? = some c) :
    p c = false := by
  have start := List.head?_dropWhile_not p cs
  rwa [first] at start

theorem tight_trimBoth (p : Char → Bool) (cs : List Char) : Tight p (trimBoth p cs) := by
  constructor
  · intro c first
    obtain ⟨rest, whole⟩ : trimBoth p cs <+: cs.dropWhile p := List.rdropWhile_prefix p _
    have start : (cs.dropWhile p).head? = some c := by
      rw [← whole, List.head?_append, first, Option.some_or]
    exact not_of_head?_dropWhile start
  · intro c last
    rw [trimBoth, dropWhileEnd, List.getLast?_reverse] at last
    exact not_of_head?_dropWhile last

theorem trimBoth_eq_self_iff : trimBoth p w = w ↔ Tight p w :=
  ⟨fun same => same ▸ tight_trimBoth p w, trimBoth_eq_self⟩

theorem exists_trimBoth (p : Char → Bool) (cs : List Char) : ∃ a b, cs = a ++ trimBoth p cs ++ b ∧
    (∀ c ∈ a, p c = true) ∧ ∀ c ∈ b, p c = true :=
  ⟨cs.takeWhile p, (cs.dropWhile p).rtakeWhile p, by
    rw [List.append_assoc, trimBoth]
    change cs = _ ++ ((cs.dropWhile p).rdropWhile p ++ _)
    rw [List.rdropWhile_append_rtakeWhile, List.takeWhile_append_dropWhile],
    fun _ => List.mem_takeWhile_imp, by
    intro c member
    exact List.mem_takeWhile_imp (List.mem_reverse.mp member)⟩

theorem mem_of_mem_trimBoth {c : Char} (member : c ∈ trimBoth p cs) : c ∈ cs := by
  obtain ⟨a, b, whole, -, -⟩ := exists_trimBoth p cs
  rw [whole]
  exact List.mem_append_left _ (List.mem_append_right _ member)

theorem mem_trimBoth {c : Char} (member : c ∈ cs) (kept : p c = false) : c ∈ trimBoth p cs := by
  obtain ⟨a, b, whole, ha, hb⟩ := exists_trimBoth p cs
  rw [whole, List.mem_append, List.mem_append] at member
  obtain (dropped | member) | dropped := member
  · exact absurd (ha c dropped) (by simp [kept])
  · exact member
  · exact absurd (hb c dropped) (by simp [kept])

theorem trimBoth_eq_nil_iff : trimBoth p cs = [] ↔ ∀ c ∈ cs, p c = true := by
  constructor
  · intro empty
    obtain ⟨a, b, whole, ha, hb⟩ := exists_trimBoth p cs
    rw [empty, List.append_nil] at whole
    rw [whole]
    exact List.forall_mem_append.mpr ⟨ha, hb⟩
  · intro all
    rw [trimBoth, List.dropWhile_eq_nil_iff.mpr all]
    rfl

/-! ## Finding -/

theorem takeWhile_append_cons {α : Type} {p : α → Bool} {a b : List α} {c : α}
    (all : ∀ x ∈ a, p x = true) (stop : p c = false) :
    (a ++ c :: b).takeWhile p = a ∧ (a ++ c :: b).dropWhile p = c :: b := by
  constructor
  · rw [List.takeWhile_append_of_pos all]
    simp [stop]
  · rw [List.dropWhile_append_of_pos all]
    simp [stop]

theorem occursIn_iff {needle : List Char} : occursIn needle cs = true ↔ needle <:+: cs := by
  induction cs with
  | nil => simp [occursIn]
  | cons c cs ih =>
    rw [occursIn, Bool.or_eq_true, List.isPrefixOf_iff_prefix, ih, List.infix_cons_iff]

/-! ## Lines -/

theorem lines_joinWith {pieces : List (List Char)} (nonempty : pieces ≠ [])
    (free : ∀ piece ∈ pieces, '\n' ∉ piece) : lines (joinWith ['\n'] pieces) =
      if pieces.getLast? = some [] then pieces.dropLast else pieces := by
  rw [lines, splitOn_joinWith nonempty free]

end SchemaLoom.Text
