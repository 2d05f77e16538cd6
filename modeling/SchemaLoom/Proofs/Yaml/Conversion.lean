import SchemaLoom.Proofs.Json.Rewriting
import SchemaLoom.Yaml.Conversion

/-!
# What conversion keeps

A document has the shape of the value it was converted from: the same items and entries in the same
order, with the text of a key for the key. Only where two keys of a mapping have one text their
entries are merged, as tables are. Conversion fails on keys without a text and on numbers that have
no counterpart, and on nothing else.
-/

namespace SchemaLoom

theorem Ordered.nodup_names_putAll {α : Type} {table : Ordered α}
    (distinct : (Ordered.names table).Nodup) (more : Ordered α) :
    (Ordered.names (Ordered.putAll table more)).Nodup := by
  induction more generalizing table with
  | nil => exact distinct
  | cons entry more ih => exact ih (Ordered.nodup_names_put entry.2 distinct)

namespace Yaml

/-! ## The parts of a value -/

/-- The values directly in a value: items, values of entries, what a tag is on. Keys are none. -/
def Value.parts : Value → List Value
  | .sequence items => items
  | .mapping entries => entries.map Prod.snd
  | .tagged _ v => [v]
  | _ => []

theorem Value.sizeOf_lt_of_mem_parts {u v : Value} (part : u ∈ v.parts) : sizeOf u < sizeOf v := by
  cases v with
  | sequence items =>
    have := List.sizeOf_lt_of_mem (show u ∈ items from part)
    simp only [Value.sequence.sizeOf_spec]
    omega
  | mapping entries =>
    obtain ⟨⟨k, w⟩, member, rfl⟩ := List.mem_map.mp part
    have := List.sizeOf_lt_of_mem member
    simp only [Prod.mk.sizeOf_spec, Value.mapping.sizeOf_spec] at this ⊢
    omega
  | tagged tag v =>
    obtain rfl := List.mem_singleton.mp part
    simp only [Value.tagged.sizeOf_spec]
    omega
  | _ => cases part

/-- Induction over the parts of values. -/
theorem Value.byParts {motive : Value → Prop}
    (step : ∀ v, (∀ u ∈ v.parts, motive u) → motive v) (v : Value) : motive v :=
  step v fun u _ => byParts step u
termination_by sizeOf v
decreasing_by exact Value.sizeOf_lt_of_mem_parts ‹_›

/-- A value is another one or inside it. -/
inductive Inside (u : Value) : Value → Prop where
  | here : Inside u u
  | part {v w : Value} : w ∈ v.parts → Inside u w → Inside u v

/-- The text of a key: a string itself, a number as it is written, a truth value as its word. -/
inductive Spells : Value → String → Prop where
  | string (s : String) : Spells (.string s) s
  | number (n : Number) : Spells (.number n) (String.ofList n.text)
  | true : Spells (.bool true) "true"
  | false : Spells (.bool false) "false"

/-- A number that documents can hold: an integer or a finite one. -/
inductive Number.Represents : Number → Json.Number → Prop where
  | int (n : Int) : Represents (.int n) (.int n)
  | real (x : Decimal.Binary64) : Represents (.real x) (.real x)

/-- What has no counterpart by itself: a number that documents cannot hold, and a mapping with a key
that has no text. -/
def Value.Unfit : Value → Prop
  | .number n => ¬ ∃ m, n.Represents m
  | .mapping entries => ∃ e ∈ entries, ¬ ∃ s, Spells e.1 s
  | _ => False

/-- A document has the shape of a value, where `merges` relates the entries that a mapping names, in
its order, to those of the object. Tags do not count. -/
inductive Shaped (merges : Json.Fields → Json.Fields → Prop) : Value → Json → Prop where
  | null : Shaped merges .null .null
  | bool (b : Bool) : Shaped merges (.bool b) (.bool b)
  | number {n : Number} {m : Json.Number} : n.Represents m →
      Shaped merges (.number n) (.number m)
  | string (s : String) : Shaped merges (.string s) (.string s)
  | sequence {items : List Value} {values : List Json} : List.Forall₂ (Shaped merges) items values →
      Shaped merges (.sequence items) (.array values)
  | mapping {entries : List (Value × Value)} {named fields : Json.Fields} :
      List.Forall₂ Spells (entries.map Prod.fst) (named.map Prod.fst) →
      List.Forall₂ (Shaped merges) (entries.map Prod.snd) (named.map Prod.snd) →
      merges named fields → Shaped merges (.mapping entries) (.object fields)
  | tagged {v : Value} {j : Json} (tag : String) : Shaped merges v j →
      Shaped merges (.tagged tag v) j

/-- The same items and the same entries, in order. -/
abbrev SameShape : Value → Json → Prop := Shaped (· = ·)

/-- Entries whose keys have one text share an entry, in the place of the first and with the value of
the last. -/
abbrev MergedShape : Value → Json → Prop := Shaped (Ordered.Overridden [])

/-- No two keys have a text in common. -/
def DistinctTexts (entries : List (Value × Value)) : Prop :=
  entries.Pairwise fun a b => ∀ s, Spells a.1 s → ¬ Spells b.1 s

/-! ## Keys and numbers -/

theorem keyText_eq_ok_iff {k : Value} {s : String} : k.keyText = .ok s ↔ Spells k s := by
  constructor
  · intro text
    cases k with
    | bool b =>
      cases b <;> obtain rfl := Except.ok.inj text
      · exact .false
      · exact .true
    | number n => exact Except.ok.inj text ▸ .number n
    | string s => exact Except.ok.inj text ▸ .string s
    | _ => cases text
  · rintro (_ | _) <;> rfl

theorem Spells.unique {k : Value} {s t : String} (hs : Spells k s) (ht : Spells k t) : s = t :=
  Except.ok.inj ((keyText_eq_ok_iff.mpr hs).symm.trans (keyText_eq_ok_iff.mpr ht))

theorem Number.toJson_eq_ok_iff {n : Number} {j : Json} :
    n.toJson = .ok j ↔ ∃ m, n.Represents m ∧ j = .number m := by
  constructor
  · intro converted
    cases n with
    | int n => exact ⟨_, .int n, (Except.ok.inj converted).symm⟩
    | real x => exact ⟨_, .real x, (Except.ok.inj converted).symm⟩
    | infinity negative => cases negative <;> cases converted
    | nan => cases converted
  · rintro ⟨m, _ | _, rfl⟩ <;> rfl

theorem Number.exists_error_iff {n : Number} :
    (∃ e, n.toJson = .error e) ↔ ¬ ∃ m, n.Represents m := by
  cases converted : n.toJson with
  | ok j =>
    obtain ⟨m, represents, -⟩ := toJson_eq_ok_iff.mp converted
    simp only [reduceCtorEq, exists_false, false_iff, not_not]
    exact ⟨m, represents⟩
  | error e =>
    refine iff_of_true ⟨e, rfl⟩ fun ⟨m, represents⟩ => ?_
    rw [toJson_eq_ok_iff.mpr ⟨m, represents, rfl⟩] at converted
    cases converted

/-! ## When conversion fails -/

theorem exists_inside_iff {p : Value → Prop} {v : Value} :
    (∃ u, Inside u v ∧ p u) ↔ p v ∨ ∃ w ∈ v.parts, ∃ u, Inside u w ∧ p u := by
  constructor
  · rintro ⟨u, _ | ⟨part, inside⟩, holds⟩
    · exact .inl holds
    · exact .inr ⟨_, part, u, inside, holds⟩
  · rintro (holds | ⟨w, part, u, inside, holds⟩)
    · exact ⟨v, .here, holds⟩
    · exact ⟨u, .part part inside, holds⟩

/-- A value has no document. -/
def Value.Fails (v : Value) : Prop := ∃ e, v.toJson = .error e

theorem exists_error_itemsToJson {items : List Value} :
    (∃ e, itemsToJson items = .error e) ↔ ∃ v ∈ items, v.Fails := by
  induction items with
  | nil => simp [itemsToJson]
  | cons v items ih =>
    rw [List.exists_mem_cons_iff, ← ih, itemsToJson]
    cases converted : v.toJson with
    | error e => simp [Value.Fails, converted]
    | ok j => cases itemsToJson items <;> simp [Value.Fails, converted]

theorem exists_error_entriesToJson {entries : List (Value × Value)} {fields : Json.Fields} :
    (∃ e, entriesToJson fields entries = .error e) ↔
      ∃ entry ∈ entries, (¬ ∃ s, Spells entry.1 s) ∨ entry.2.Fails := by
  induction entries generalizing fields with
  | nil => simp [entriesToJson]
  | cons entry entries ih =>
    obtain ⟨k, v⟩ := entry
    rw [List.exists_mem_cons_iff, entriesToJson]
    simp only [← keyText_eq_ok_iff]
    cases text : k.keyText with
    | error e => simp
    | ok key =>
      cases converted : v.toJson with
      | error e => simp [Value.Fails, converted]
      | ok j => simp [Value.Fails, converted, ih, ← keyText_eq_ok_iff]

/-- A value has no document because of itself or of one of its parts. -/
theorem Value.fails_iff (v : Value) : v.Fails ↔ v.Unfit ∨ ∃ w ∈ v.parts, w.Fails := by
  cases v with
  | null | bool | string => simp [Fails, Unfit, parts, toJson]
  | number n => simpa [Fails, Unfit, parts, toJson] using Number.exists_error_iff
  | sequence items =>
    have whole : (Value.sequence items).Fails ↔ ∃ e, itemsToJson items = .error e := by
      rw [Fails, toJson]
      cases itemsToJson items <;> simp
    rw [whole, exists_error_itemsToJson]
    simp only [Unfit, parts, false_or]
  | mapping entries =>
    have whole : (Value.mapping entries).Fails ↔ ∃ e, entriesToJson [] entries = .error e := by
      rw [Fails, toJson]
      cases entriesToJson [] entries <;> simp
    rw [whole, exists_error_entriesToJson]
    simp only [Unfit, parts, List.mem_map, exists_exists_and_eq_and, and_or_left, exists_or]
  | tagged tag v => simp [Unfit, parts, Fails, toJson]

theorem Value.fails_iff_unfit (v : Value) : v.Fails ↔ ∃ u, Inside u v ∧ u.Unfit := by
  induction v using Value.byParts with
  | step v ih =>
    rw [Value.fails_iff, exists_inside_iff]
    exact or_congr_right (exists_congr fun w => and_congr_right (ih w))

/-! ## What conversion makes -/

theorem forall₂_imp_of_mem {α β : Type} {R S : α → β → Prop} {as : List α} {bs : List β}
    (imp : ∀ a ∈ as, ∀ b, R a b → S a b) (h : List.Forall₂ R as bs) : List.Forall₂ S as bs :=
  ((List.forall₂_and_left as bs).mpr ⟨fun _ member => member, h⟩).imp
    fun a b both => imp a both.1 b both.2

theorem forall₂_of_itemsToJson {items : List Value} {values : List Json}
    (converted : itemsToJson items = .ok values) :
    List.Forall₂ (fun v j => v.toJson = .ok j) items values := by
  induction items generalizing values with
  | nil =>
    obtain rfl := Except.ok.inj converted
    exact .nil
  | cons v items ih =>
    rw [itemsToJson] at converted
    split at converted
    · cases converted
    · rename_i first
      split at converted
      · rename_i rest
        obtain rfl := Except.ok.inj converted
        exact .cons first (ih rest)
      · cases converted

/-- The entries that a mapping names are put into a table one after the other. -/
theorem entriesToJson_eq_ok {entries : List (Value × Value)} {fields result : Json.Fields}
    (converted : entriesToJson fields entries = .ok result) :
    ∃ named : Json.Fields,
      List.Forall₂ Spells (entries.map Prod.fst) (named.map Prod.fst) ∧
      List.Forall₂ (fun v j => v.toJson = .ok j) (entries.map Prod.snd) (named.map Prod.snd) ∧
      result = Ordered.putAll fields named := by
  induction entries generalizing fields with
  | nil => exact ⟨[], .nil, .nil, (Except.ok.inj converted).symm⟩
  | cons entry entries ih =>
    obtain ⟨k, v⟩ := entry
    rw [entriesToJson] at converted
    split at converted
    · cases converted
    · rename_i name text
      split at converted
      · cases converted
      · rename_i j first
        obtain ⟨named, keys, values, rfl⟩ := ih converted
        exact ⟨(name, j) :: named, .cons (keyText_eq_ok_iff.mp text) keys, .cons first values, rfl⟩

theorem Value.toJson_mapping {entries : List (Value × Value)} {j : Json}
    (converted : (Value.mapping entries).toJson = .ok j) : ∃ named : Json.Fields,
      List.Forall₂ Spells (entries.map Prod.fst) (named.map Prod.fst) ∧
      List.Forall₂ (fun v j => v.toJson = .ok j) (entries.map Prod.snd) (named.map Prod.snd) ∧
      j = .object (Ordered.putAll [] named) := by
  rw [toJson] at converted
  split at converted
  · rename_i fields inner
    obtain ⟨named, keys, values, rfl⟩ := entriesToJson_eq_ok inner
    exact ⟨named, keys, values, (Except.ok.inj converted).symm⟩
  · cases converted

theorem Value.toJson_sequence {items : List Value} {j : Json}
    (converted : (Value.sequence items).toJson = .ok j) : ∃ values : List Json,
      List.Forall₂ (fun v j => v.toJson = .ok j) items values ∧ j = .array values := by
  rw [toJson] at converted
  split at converted
  · rename_i values inner
    exact ⟨values, forall₂_of_itemsToJson inner, (Except.ok.inj converted).symm⟩
  · cases converted

/-- A document has a shape if that is so wherever a mapping is merged. -/
theorem Value.shaped_of_toJson {merges : Json.Fields → Json.Fields → Prop} (v : Value)
    (mappings : ∀ entries, Inside (.mapping entries) v → ∀ named : Json.Fields,
      List.Forall₂ Spells (entries.map Prod.fst) (named.map Prod.fst) →
      merges named (Ordered.putAll [] named)) {j : Json} (converted : v.toJson = .ok j) :
    Shaped merges v j := by
  induction v using Value.byParts generalizing j with
  | step v ih =>
    have inner : ∀ w ∈ v.parts, ∀ j, w.toJson = .ok j → Shaped merges w j := fun w part j =>
      ih w part (fun entries inside => mappings entries (.part part inside))
    cases v with
    | null => exact Except.ok.inj converted ▸ .null
    | bool b => exact Except.ok.inj converted ▸ .bool b
    | number n =>
      obtain ⟨m, represents, rfl⟩ := Number.toJson_eq_ok_iff.mp converted
      exact .number represents
    | string s => exact Except.ok.inj converted ▸ .string s
    | sequence items =>
      obtain ⟨values, all, rfl⟩ := toJson_sequence converted
      exact .sequence (forall₂_imp_of_mem inner all)
    | mapping entries =>
      obtain ⟨named, keys, values, rfl⟩ := toJson_mapping converted
      exact .mapping keys (forall₂_imp_of_mem inner values) (mappings entries .here named keys)
    | tagged tag v => exact .tagged tag (inner v (List.mem_singleton.mpr rfl) j converted)

/-! ## When nothing is lost -/

theorem mem_iff_of_spells {keys : List Value} {names : List String} {s : String}
    (spelled : List.Forall₂ Spells keys names) : s ∈ names ↔ ∃ k ∈ keys, Spells k s := by
  induction spelled with
  | nil => simp
  | @cons k name keys names here _ ih =>
    rw [List.mem_cons, List.exists_mem_cons_iff, ih]
    exact or_congr_left ⟨fun eq => eq ▸ here, fun there => there.unique here⟩

/-- The names of entries do not repeat exactly if no two keys have a text in common. -/
theorem nodup_iff_distinctTexts {entries : List (Value × Value)} {names : List String}
    (spelled : List.Forall₂ Spells (entries.map Prod.fst) names) :
    names.Nodup ↔ DistinctTexts entries := by
  induction entries generalizing names with
  | nil =>
    cases spelled
    exact iff_of_true List.nodup_nil List.Pairwise.nil
  | cons entry entries ih =>
    obtain ⟨name, rest, here, more, rfl⟩ := List.forall₂_cons_left_iff.mp spelled
    rw [List.nodup_cons, DistinctTexts, List.pairwise_cons, ih more, mem_iff_of_spells more]
    refine and_congr_left fun _ => ?_
    simp only [List.mem_map, exists_exists_and_eq_and, not_exists, not_and]
    exact ⟨fun apart b member s first => (first.unique here) ▸ apart b member,
      fun apart b member => apart b member name here⟩

theorem Value.sameShape_of_distinctTexts {v : Value} {j : Json} (converted : v.toJson = .ok j)
    (distinct : ∀ entries, Inside (.mapping entries) v → DistinctTexts entries) :
    SameShape v j := by
  refine v.shaped_of_toJson (fun entries inside named keys => ?_) converted
  have nodup := (nodup_iff_distinctTexts keys).mpr (distinct entries inside)
  exact (Ordered.ofList_of_nodup nodup).symm

theorem distinctTexts_of_sameShape {entries : List (Value × Value)} {j : Json}
    (converted : (Value.mapping entries).toJson = .ok j)
    (same : SameShape (.mapping entries) j) : DistinctTexts entries := by
  obtain ⟨named, -, -, rfl⟩ := Value.toJson_mapping converted
  cases same with
  | mapping keys _ eq =>
    subst eq
    exact (nodup_iff_distinctTexts keys).mp (Ordered.nodup_names_putAll (by simp) named)

theorem exists_both {α β : Type} {R S : α → β → Prop} {as : List α} {bs : List β}
    (hr : List.Forall₂ R as bs) (hs : List.Forall₂ S as bs) {a : α} (member : a ∈ as) :
    ∃ b, R a b ∧ S a b := by
  induction hr with
  | nil => cases member
  | cons first _ ih =>
    cases hs with
    | cons second rest =>
      rcases List.mem_cons.mp member with rfl | member
      · exact ⟨_, first, second⟩
      · exact ih rest member

/-- Where a document has the shape of a value, its parts have the shapes of the value's parts. -/
theorem Value.sameShape_parts {v : Value} {j : Json} (converted : v.toJson = .ok j)
    (same : SameShape v j) {w : Value} (part : w ∈ v.parts) :
    ∃ i, w.toJson = .ok i ∧ SameShape w i := by
  cases v with
  | sequence items =>
    obtain ⟨values, all, rfl⟩ := toJson_sequence converted
    cases same with
    | sequence shapes => exact exists_both all shapes part
  | mapping entries =>
    have distinct := distinctTexts_of_sameShape converted same
    obtain ⟨named, keys, values, rfl⟩ := toJson_mapping converted
    have kept : Ordered.putAll [] named = named :=
      Ordered.ofList_of_nodup ((nodup_iff_distinctTexts keys).mpr distinct)
    rw [kept] at same
    cases same with
    | mapping _ shapes eq =>
      subst eq
      exact exists_both values shapes part
  | tagged tag v =>
    obtain rfl := List.mem_singleton.mp part
    cases same with
    | tagged _ shape => exact ⟨j, converted, shape⟩
  | _ => cases part

theorem Value.sameShape_iff (v : Value) {j : Json} (converted : v.toJson = .ok j) :
    SameShape v j ↔ ∀ entries, Inside (.mapping entries) v → DistinctTexts entries := by
  refine ⟨?_, sameShape_of_distinctTexts converted⟩
  induction v using Value.byParts generalizing j with
  | step v ih =>
    rintro same entries (_ | ⟨part, inside⟩)
    · exact distinctTexts_of_sameShape converted same
    · obtain ⟨i, inner, shape⟩ := sameShape_parts converted same part
      exact ih _ part inner shape entries inside

/-- Conversion fails exactly if a number that documents cannot hold stands somewhere in the value,
or a mapping with a key that has no text. What it gives otherwise has the shape of the value with
entries merged where keys have one text; so it has exactly the shape of the value if and only if
nowhere two keys of a mapping have one text. -/
theorem Value.toJson_keeps_shape (v : Value) :
    ((∃ e, v.toJson = .error e) ↔ ∃ u, Inside u v ∧ u.Unfit) ∧
    ∀ j, v.toJson = .ok j → MergedShape v j ∧
      (SameShape v j ↔ ∀ entries, Inside (.mapping entries) v → DistinctTexts entries) :=
  ⟨v.fails_iff_unfit, fun _ converted =>
    ⟨v.shaped_of_toJson (fun _ _ named _ => Ordered.overridden_putAll [] named) converted,
      v.sameShape_iff converted⟩⟩

/-- A truth value and a string for keys. -/
def wordKeys (second : String) : Value :=
  .mapping [(.bool true, .string "a"), (.string second, .string "b")]

/-- Of the keys `true` and `"true"` one is left; `true` and `"false"` both stay. -/
theorem Value.toJson_keeps_shape_wordKeys :
    (wordKeys "true").toJson = .ok (.object [("true", .string "b")]) ∧
    MergedShape (wordKeys "true") (.object [("true", .string "b")]) ∧
    ¬ SameShape (wordKeys "true") (.object [("true", .string "b")]) ∧
    (wordKeys "false").toJson = .ok (.object [("true", .string "a"), ("false", .string "b")]) ∧
    SameShape (wordKeys "false") (.object [("true", .string "a"), ("false", .string "b")]) ∧
    ∃ e, (Value.sequence [.mapping [(.null, .null)]]).toJson = .error e := by
  have one : (wordKeys "true").toJson = .ok (.object [("true", .string "b")]) := rfl
  have two : (wordKeys "false").toJson =
      .ok (.object [("true", .string "a"), ("false", .string "b")]) := rfl
  refine ⟨one, ((toJson_keeps_shape _).2 _ one).1, fun same => ?_, two, ?_, ?_⟩
  · have distinct := ((toJson_keeps_shape _).2 _ one).2.mp same _ .here
    exact (List.pairwise_cons.mp distinct).1 _ List.mem_cons_self "true" .true (.string "true")
  · refine ((toJson_keeps_shape _).2 _ two).2.mpr fun entries inside => ?_
    cases inside with
    | here =>
      refine List.pairwise_cons.mpr ⟨fun e member s first second => ?_, List.pairwise_singleton _ _⟩
      obtain rfl := List.mem_singleton.mp member
      have word : s = "true" := first.unique .true
      exact absurd (word.symm.trans (second.unique (.string "false"))) (by decide)
    | part member inside =>
      rcases List.mem_pair.mp member with rfl | rfl <;>
      · cases inside with
        | part none _ => cases none
  · refine (toJson_keeps_shape _).1.mpr ⟨_, .part List.mem_cons_self .here, _,
      List.mem_cons_self, ?_⟩
    rintro ⟨s, spelled⟩
    cases spelled

end Yaml

end SchemaLoom
