import SchemaLoom.Proofs.Json.Rewriting
import SchemaLoom.Proofs.Text.Replacement
import SchemaLoom.Substitution

/-!
# One pass for all tokens

Tokens are replaced one after the other, each in the text that the tokens before it have left. Under
two conditions this is one pass from left to right that gives every dollar sign the longest name
behind it: names and values hold no dollar sign, and between two dollar signs stands a character
that no name has. Then replacing a token neither makes a dollar sign nor changes what a name can
read behind another one.

The pass knows no order of the tokens, so neither does the result.
-/

namespace SchemaLoom.Substitution

open Text

/-- The pass from left to right. A dollar sign with a name behind it gives way, with the longest
such name, to the text of the value. Everything else stays. -/
inductive Replaced (entries : List (String × Json)) : List Char → List Char → Prop
  | done : Replaced entries [] []
  | kept {c : Char} {cs out : List Char} : (c = '$' → ∀ e ∈ entries, ¬ e.1.toList <+: cs) →
      Replaced entries cs out → Replaced entries (c :: cs) (c :: out)
  | replaced {e : String × Json} {cs out : List Char} : e ∈ entries →
      (∀ d ∈ entries, d.1.toList <+: e.1.toList ++ cs → d.1.length ≤ e.1.length) →
      Replaced entries cs out →
      Replaced entries ('$' :: (e.1.toList ++ cs)) (valueText e.2 ++ out)

/-- Between a dollar sign and the next one stands a character that is in no name. -/
def Separates (names : List String) (cs : List Char) : Prop :=
  ∀ before between behind, cs = before ++ '$' :: (between ++ '$' :: behind) → '$' ∉ between →
    ∃ c ∈ between, ∀ name ∈ names, c ∉ name.toList

variable {entries : List (String × Json)} {names : List String} {c : Char} {cs out : List Char}

/-! ## The pass -/

namespace Replaced

theorem of_cons (h : Replaced entries (c :: cs) out) :
    ((c = '$' → ∀ e ∈ entries, ¬ e.1.toList <+: cs) ∧
      ∃ out', out = c :: out' ∧ Replaced entries cs out') ∨
    c = '$' ∧ ∃ e rest out', e ∈ entries ∧ cs = e.1.toList ++ rest ∧
      out = valueText e.2 ++ out' ∧ Replaced entries rest out' ∧
      ∀ d ∈ entries, d.1.toList <+: cs → d.1.length ≤ e.1.length := by
  cases h with
  | kept free rest => exact .inl ⟨free, _, rfl, rest⟩
  | replaced mem longest rest => exact .inr ⟨rfl, _, _, _, mem, rfl, rfl, rest, longest⟩

theorem refl (cs : List Char) : Replaced [] cs cs := by
  induction cs with
  | nil => exact .done
  | cons c cs ih => exact .kept (by simp) ih

theorem of_append {a : List Char} (free : '$' ∉ a) (h : Replaced entries (a ++ cs) out) :
    ∃ out', out = a ++ out' ∧ Replaced entries cs out' := by
  induction a generalizing out with
  | nil => exact ⟨out, rfl, h⟩
  | cons c a ih =>
    simp only [List.mem_cons, not_or] at free
    rcases of_cons h with ⟨-, out', rfl, rest⟩ | ⟨dollar, -⟩
    · obtain ⟨out'', rfl, behind⟩ := ih free.2 rest
      exact ⟨out'', rfl, behind⟩
    · exact absurd dollar.symm free.1

theorem append {a : List Char} (free : '$' ∉ a) (h : Replaced entries cs out) :
    Replaced entries (a ++ cs) (a ++ out) := by
  induction a with
  | nil => exact h
  | cons c a ih =>
    simp only [List.mem_cons, not_or] at free
    exact .kept (fun dollar => absurd dollar.symm free.1) (ih free.2)

theorem congr {other : List (String × Json)} (same : ∀ e, e ∈ other ↔ e ∈ entries)
    (h : Replaced entries cs out) : Replaced other cs out := by
  induction h with
  | done => exact .done
  | kept free _ ih => exact .kept (fun dollar e mem => free dollar e ((same e).mp mem)) ih
  | replaced mem longest _ ih =>
    exact .replaced ((same _).mpr mem) (fun d mem => longest d ((same d).mp mem)) ih

theorem name_unique {a b : String} (ha : a.toList <+: cs) (hb : b.toList <+: cs)
    (length : a.length = b.length) : a = b := by
  apply String.toList_inj.mp
  have length : a.toList.length = b.toList.length := by
    rw [String.length_toList, String.length_toList, length]
  exact (List.prefix_of_prefix_length_le ha hb (Nat.le_of_eq length)).eq_of_length length

theorem unique {out' : List Char} (distinct : (Ordered.names entries).Nodup)
    (h : Replaced entries cs out) (h' : Replaced entries cs out') : out = out' := by
  induction h generalizing out' with
  | done => cases h'; rfl
  | kept free _ ih =>
    rcases of_cons h' with ⟨-, out', rfl, rest⟩ | ⟨dollar, e, rest, -, mem, rfl, -⟩
    · rw [ih rest]
    · exact absurd (List.prefix_append _ _) (free dollar e mem)
  | @replaced e cs out mem longest _ ih =>
    rcases of_cons h' with ⟨free, -⟩ | ⟨-, d, rest, out', memd, split, rfl, restd, longestd⟩
    · exact absurd (List.prefix_append _ _) (free rfl e mem)
    · have begins : d.1.toList <+: e.1.toList ++ cs := split ▸ List.prefix_append _ _
      have length : d.1.length = e.1.length :=
        Nat.le_antisymm (longest d memd begins) (longestd e mem (List.prefix_append _ _))
      have name := name_unique begins (List.prefix_append _ _) length
      have found : ∀ e ∈ entries, Ordered.get? e.1 entries = some e.2 := fun _ mem =>
        Ordered.get?_of_mem distinct mem
      have value : d.2 = e.2 := by
        have hd := found d memd
        rw [name, found e mem] at hd
        exact (Option.some.inj hd).symm
      rw [name, List.append_cancel_left_eq] at split
      rw [value, ih (split ▸ restd)]

end Replaced

/-! ## Separated dollar signs -/

/-- Before the next dollar sign, if there is one, stands a character that is in no name. -/
def Guarded (names : List String) : List Char → Prop
  | [] => True
  | c :: cs => c ≠ '$' ∧ ((∀ name ∈ names, c ∉ name.toList) ∨ Guarded names cs)

theorem guarded_iff : Guarded names cs ↔ ∀ between behind, cs = between ++ '$' :: behind →
    '$' ∉ between → ∃ c ∈ between, ∀ name ∈ names, c ∉ name.toList := by
  induction cs with
  | nil => simp [Guarded]
  | cons c cs ih =>
    rw [Guarded, ih]
    constructor
    · rintro ⟨dollar, guard⟩ between behind eq free
      cases between with
      | nil => exact absurd (List.cons.inj eq).1 dollar
      | cons d between =>
        obtain ⟨rfl, rfl⟩ := List.cons.inj eq
        simp only [List.mem_cons, not_or] at free
        rcases guard with outside | guard
        · exact ⟨c, List.mem_cons_self, outside⟩
        · obtain ⟨d, mem, outside⟩ := guard _ _ rfl free.2
          exact ⟨d, List.mem_cons_of_mem _ mem, outside⟩
    · intro guard
      have dollar : c ≠ '$' := by
        rintro rfl
        simpa using guard [] cs rfl (by simp)
      refine ⟨dollar, or_iff_not_imp_left.mpr fun inside between behind eq free => ?_⟩
      obtain ⟨d, mem, outside⟩ := guard (c :: between) behind (by rw [eq]; rfl)
        (by simpa using ⟨dollar.symm, free⟩)
      rcases List.mem_cons.mp mem with rfl | mem
      · exact absurd outside inside
      · exact ⟨d, mem, outside⟩

theorem separates_nil : Separates names [] := by
  intro before between behind eq
  simp at eq

theorem separates_cons :
    Separates names (c :: cs) ↔ (c = '$' → Guarded names cs) ∧ Separates names cs := by
  rw [guarded_iff]
  constructor
  · refine fun h => ⟨?_, fun before between behind eq => ?_⟩
    · rintro rfl between behind rfl
      exact h [] between behind rfl
    · exact h (c :: before) between behind (by rw [eq]; rfl)
  · rintro ⟨here, later⟩ before between behind eq
    cases before with
    | nil =>
      have parts := List.cons.inj eq
      exact here parts.1 between behind parts.2
    | cons d before => exact later before between behind (List.cons.inj eq).2

instance decidableGuarded (names : List String) : (cs : List Char) → Decidable (Guarded names cs)
  | [] => isTrue trivial
  | c :: cs =>
    have := decidableGuarded names cs
    inferInstanceAs (Decidable (c ≠ '$' ∧ ((∀ name ∈ names, c ∉ name.toList) ∨ Guarded names cs)))

instance decidableSeparates (names : List String) : (cs : List Char) →
    Decidable (Separates names cs)
  | [] => isTrue separates_nil
  | _ :: cs =>
    have := decidableSeparates names cs
    decidable_of_iff _ separates_cons.symm

theorem Separates.of_append {a : List Char} (h : Separates names (a ++ cs)) :
    Separates names cs := by
  induction a with
  | nil => exact h
  | cons c a ih => exact ih (separates_cons.mp h).2

theorem Separates.append {a : List Char} (free : '$' ∉ a) (h : Separates names cs) :
    Separates names (a ++ cs) := by
  induction a with
  | nil => exact h
  | cons c a ih =>
    simp only [List.mem_cons, not_or] at free
    exact separates_cons.mpr ⟨fun dollar => absurd dollar.symm free.1, ih free.2⟩

theorem Separates.mono {fewer : List String} (h : Separates names cs) (sub : fewer ⊆ names) :
    Separates fewer cs := by
  intro before between behind eq free
  obtain ⟨c, mem, outside⟩ := h before between behind eq free
  exact ⟨c, mem, fun name member => outside name (sub member)⟩

/-! ## One token -/

section Token

variable {name : String} {text : List Char}

/-- A text as the replacement of one token goes through it. -/
theorem tokenwise {motive : List Char → Prop} (name : String) (nil : motive [])
    (plain : ∀ c cs, c ≠ '$' → motive cs → motive (c :: cs))
    (found : ∀ cs, motive cs → motive ('$' :: (name.toList ++ cs)))
    (other : ∀ cs, ¬ name.toList <+: cs → motive cs → motive ('$' :: cs)) (cs : List Char) :
    motive cs := by
  induction length : cs.length using Nat.strongRecOn generalizing cs with
  | ind n ih =>
    cases cs with
    | nil => exact nil
    | cons c cs =>
      simp only [List.length_cons] at length
      by_cases dollar : c = '$'
      · subst dollar
        by_cases begins : name.toList <+: cs
        · obtain ⟨rest, rfl⟩ := begins
          rw [List.length_append] at length
          exact found rest (ih rest.length (by omega) rest rfl)
        · exact other cs begins (ih cs.length (by omega) cs rfl)
      · exact plain c cs dollar (ih cs.length (by omega) cs rfl)

theorem replaceAll_needle_plain (dollar : c ≠ '$') :
    replaceAll (needle name) text (c :: cs) = c :: replaceAll (needle name) text cs :=
  replaceAll_append_of_free text name.toList (a := [c]) cs (by simpa using dollar.symm)

theorem replaceAll_needle_found (cs : List Char) :
    replaceAll (needle name) text ('$' :: (name.toList ++ cs)) =
      text ++ replaceAll (needle name) text cs :=
  replaceAll_match text (List.cons_ne_nil _ _) cs

theorem replaceAll_needle_other (other : ¬ name.toList <+: cs) :
    replaceAll (needle name) text ('$' :: cs) = '$' :: replaceAll (needle name) text cs :=
  replaceAll_cons text (by simpa [needle, List.cons_prefix_cons] using other)

theorem Guarded.replaceAll (h : Guarded names cs) :
    Guarded names (replaceAll (needle name) text cs) := by
  induction cs with
  | nil => exact h
  | cons c cs ih =>
    rw [replaceAll_needle_plain h.1]
    exact ⟨h.1, h.2.imp_right ih⟩

theorem Separates.replaceAll (free : '$' ∉ text) (h : Separates names cs) :
    Separates names (replaceAll (needle name) text cs) := by
  induction cs using tokenwise name with
  | nil => exact h
  | plain c cs dollar ih =>
    rw [replaceAll_needle_plain dollar, separates_cons]
    exact ⟨fun eq => absurd eq dollar, ih (separates_cons.mp h).2⟩
  | found cs ih =>
    rw [replaceAll_needle_found]
    exact (ih (separates_cons.mp h).2.of_append).append free
  | other cs none ih =>
    rw [replaceAll_needle_other none, separates_cons]
    exact ⟨fun _ => ((separates_cons.mp h).1 rfl).replaceAll, ih (separates_cons.mp h).2⟩

/-- Text of which every character is in a name is not brought about behind a dollar sign. -/
theorem prefix_of_prefix_replaceAll {n : List Char} (h : Guarded names cs)
    (inside : ∀ c ∈ n, ∃ name ∈ names, c ∈ name.toList)
    (begins : n <+: replaceAll (needle name) text cs) : n <+: cs := by
  induction n generalizing cs with
  | nil => exact List.nil_prefix
  | cons d n ih =>
    simp only [List.forall_mem_cons] at inside
    cases cs with
    | nil => exact begins
    | cons c cs =>
      rw [replaceAll_needle_plain h.1, List.cons_prefix_cons] at begins
      obtain ⟨rfl, begins⟩ := begins
      rcases h.2 with outside | guard
      · obtain ⟨name, mem, member⟩ := inside.1
        exact absurd member (outside name mem)
      · exact List.cons_prefix_cons.mpr ⟨rfl, ih guard inside.2 begins⟩

theorem replaceAll_name {other : String} (free : '$' ∉ other.toList) (cs : List Char) :
    replaceAll (needle name) text (other.toList ++ cs) =
      other.toList ++ replaceAll (needle name) text cs :=
  replaceAll_append_of_free text name.toList cs free

theorem name_prefix_replaceAll_iff {other : String} (h : Guarded names cs) (mem : other ∈ names)
    (free : '$' ∉ other.toList) :
    other.toList <+: replaceAll (needle name) text cs ↔ other.toList <+: cs := by
  constructor
  · exact prefix_of_prefix_replaceAll h fun c member => ⟨other, mem, member⟩
  · rintro ⟨rest, rfl⟩
    rw [replaceAll_name free]
    exact List.prefix_append _ _

end Token

/-- Of two names that a text begins with, one with no more bytes has no more characters. -/
theorem length_le_of_bytes {a b : String} (ha : a.toList <+: cs) (hb : b.toList <+: cs)
    (bytes : a.utf8ByteSize ≤ b.utf8ByteSize) : a.length ≤ b.length := by
  rcases List.prefix_or_prefix_of_prefix ha hb with h | ⟨rest, h⟩
  · rw [← String.length_toList, ← String.length_toList]
    exact h.length_le
  · have same : b ++ String.ofList rest = a := by
      rw [← String.toList_inj, String.toList_append, String.toList_ofList, h]
    rw [← same, String.utf8ByteSize_append] at bytes
    have empty : String.ofList rest = "" := by
      rw [← String.utf8ByteSize_eq_zero_iff]
      omega
    exact Nat.le_of_eq (by rw [← same, empty, String.append_empty])

/-- Replacing a token first and the shorter ones in one pass is one pass for all. -/
theorem Replaced.cons {e : String × Json} (free : ∀ d ∈ e :: entries, '$' ∉ d.1.toList)
    (value : '$' ∉ valueText e.2) (longest : ∀ d ∈ entries, noLater e d = true)
    (separated : Separates (Ordered.names (e :: entries)) cs)
    (rest : Replaced entries (replaceAll (needle e.1) (valueText e.2) cs) out) :
    Replaced (e :: entries) cs out := by
  have same : ∀ d ∈ entries, ∀ cs, Guarded (Ordered.names (e :: entries)) cs →
      (d.1.toList <+: replaceAll (needle e.1) (valueText e.2) cs ↔ d.1.toList <+: cs) :=
    fun d mem cs guard => name_prefix_replaceAll_iff guard
      (List.mem_cons_of_mem _ (List.mem_map_of_mem mem)) (free d (List.mem_cons_of_mem _ mem))
  induction cs using tokenwise e.1 generalizing out with
  | nil =>
    cases rest
    exact .done
  | plain c cs dollar ih =>
    rw [replaceAll_needle_plain dollar] at rest
    rcases rest.of_cons with ⟨-, out', rfl, later⟩ | ⟨eq, -⟩
    · exact .kept (fun eq => absurd eq dollar) (ih (separates_cons.mp separated).2 later)
    · exact absurd eq dollar
  | found cs ih =>
    rw [replaceAll_needle_found] at rest
    obtain ⟨out', rfl, later⟩ := rest.of_append value
    refine .replaced List.mem_cons_self (fun d mem begins => ?_)
      (ih (separates_cons.mp separated).2.of_append later)
    rcases List.mem_cons.mp mem with rfl | mem
    · exact Nat.le_refl _
    · exact length_le_of_bytes begins (List.prefix_append _ _)
        (by simpa [noLater] using longest d mem)
  | other cs none ih =>
    have here := separates_cons.mp separated
    have guard := here.1 rfl
    rw [replaceAll_needle_other none] at rest
    rcases rest.of_cons with ⟨free', out', rfl, later⟩ |
      ⟨-, d, behind', out', mem, split, rfl, later, longest'⟩
    · refine .kept (fun _ d mem begins => ?_) (ih here.2 later)
      rcases List.mem_cons.mp mem with rfl | mem
      · exact none begins
      · exact free' rfl d mem ((same d mem cs guard).mpr begins)
    · -- The name that is longest behind the dollar sign was so before.
      obtain ⟨behind, rfl⟩ := (same d mem cs guard).mp (split ▸ List.prefix_append _ _)
      have apart := free d (List.mem_cons_of_mem _ mem)
      rw [replaceAll_name apart] at split
      obtain rfl := List.append_cancel_left split
      have whole := ih here.2 (by rw [replaceAll_name apart]; exact later.append apart)
      obtain ⟨out'', eq, tail⟩ := whole.of_append apart
      obtain rfl := List.append_cancel_left eq
      refine .replaced (List.mem_cons_of_mem _ mem) (fun f memf begins => ?_) tail
      rcases List.mem_cons.mp memf with rfl | memf
      · exact absurd begins none
      · exact longest' f memf ((same f memf _ guard).mpr begins)

/-! ## All tokens -/

/-- Longer tokens first, one after the other, is one pass. -/
theorem replaced_foldl (sorted : entries.Pairwise fun a b => noLater a b = true)
    (free : ∀ e ∈ entries, '$' ∉ e.1.toList) (values : ∀ e ∈ entries, '$' ∉ valueText e.2)
    (separated : Separates (Ordered.names entries) cs) :
    Replaced entries cs
      (entries.foldl (fun cs e => replaceAll (needle e.1) (valueText e.2) cs) cs) := by
  induction entries generalizing cs with
  | nil => exact .refl cs
  | cons e entries ih =>
    have order := List.pairwise_cons.mp sorted
    have value := values e List.mem_cons_self
    apply Replaced.cons free value order.1 separated
    apply ih order.2 (fun d mem => free d (List.mem_cons_of_mem _ mem))
      (fun d mem => values d (List.mem_cons_of_mem _ mem))
    exact (separated.mono (List.subset_cons_self _ _)).replaceAll value

theorem pairwise_ordered (table : Substitution) :
    table.ordered.Pairwise fun a b => noLater a b = true := by
  apply List.pairwise_mergeSort
  · intro a b c hab hbc
    simp only [noLater, decide_eq_true_eq] at *
    omega
  · intro a b
    simp only [noLater, Bool.or_eq_true, decide_eq_true_eq]
    omega

theorem mem_ordered {table : Substitution} {e : String × Json} : e ∈ table.ordered ↔ e ∈ table :=
  (List.mergeSort_perm table noLater).mem_iff

theorem replaced_apply {table : Substitution} (free : ∀ e ∈ table, '$' ∉ e.1.toList)
    (values : ∀ e ∈ table, '$' ∉ valueText e.2) {text : String}
    (separated : Separates (Ordered.names table) text.toList) :
    Replaced table text.toList (table.apply text).toList := by
  rw [apply, applyChars, applyWith, String.toList_ofList]
  refine Replaced.congr (fun e => mem_ordered.symm) (replaced_foldl (pairwise_ordered table)
    (fun e mem => free e (mem_ordered.mp mem)) (fun e mem => values e (mem_ordered.mp mem))
    (separated.mono fun name mem => ?_))
  obtain ⟨e, member, rfl⟩ := List.mem_map.mp mem
  exact List.mem_map_of_mem (mem_ordered.mp member)

/-- Where neither names nor values hold a dollar sign and every two dollar signs are separated,
replacing the tokens is the one pass in which the longest name wins, in whatever order the tokens
were given. -/
theorem apply_simultaneous (table : Substitution) (distinct : (Ordered.names table).Nodup)
    (free : ∀ e ∈ table, '$' ∉ e.1.toList) (values : ∀ e ∈ table, '$' ∉ valueText e.2)
    (text : String) (separated : Separates (Ordered.names table) text.toList) :
    (∀ out : String, table.apply text = out ↔ Replaced table text.toList out.toList) ∧
      ∀ entries, entries.Perm table → (extend [] entries).apply text = table.apply text := by
  have pass := replaced_apply free values separated
  refine ⟨fun out => ⟨fun eq => eq ▸ pass, fun other => ?_⟩, fun entries perm => ?_⟩
  · exact String.toList_inj.mp (pass.unique distinct other)
  · have names : (Ordered.names entries).Perm (Ordered.names table) := perm.map _
    have inserted : extend [] entries = entries :=
      Ordered.ofList_of_nodup (names.nodup_iff.mpr distinct)
    have again : Replaced entries text.toList (apply entries text).toList :=
      replaced_apply (fun e mem => free e (perm.mem_iff.mp mem))
        (fun e mem => values e (perm.mem_iff.mp mem)) (separated.mono names.subset)
    rw [inserted]
    exact String.toList_inj.mp ((again.congr fun e => perm.mem_iff.symm).unique distinct pass)

/-- Names that begin with each other, one of them given a number. -/
def prefixed : Substitution :=
  [("nameSpace", .string "Z"), ("name", .string "X"), ("n", .number (.int 3))]

theorem apply_simultaneous_prefixed :
    ((Ordered.names prefixed).Nodup ∧ (∀ e ∈ prefixed, '$' ∉ e.1.toList) ∧
      (∀ e ∈ prefixed, '$' ∉ valueText e.2) ∧
      Separates (Ordered.names prefixed) "$nameSpace/$names-$n.$other".toList) ∧
    Replaced prefixed "$nameSpace/$names-$n.$other".toList "Z/Xs-3.$other".toList ∧
    (extend [] prefixed.reverse).apply "$nameSpace/$names-$n.$other" = "Z/Xs-3.$other" := by
  have distinct : (Ordered.names prefixed).Nodup := by decide
  have free : ∀ e ∈ prefixed, '$' ∉ e.1.toList := by decide
  have values : ∀ e ∈ prefixed, '$' ∉ valueText e.2 := by decide +kernel
  have separated : Separates (Ordered.names prefixed) "$nameSpace/$names-$n.$other".toList := by
    decide
  have order : prefixed.ordered = prefixed := List.mergeSort_of_pairwise (by decide)
  have eq : prefixed.apply "$nameSpace/$names-$n.$other" = "Z/Xs-3.$other" := by
    rw [apply, applyChars, applyWith, order]
    decide +kernel
  have law := apply_simultaneous prefixed distinct free values _ separated
  refine ⟨⟨distinct, free, values, separated⟩, (law.1 _).mp eq, ?_⟩
  rw [law.2 _ (List.reverse_perm _), eq]

end SchemaLoom.Substitution
