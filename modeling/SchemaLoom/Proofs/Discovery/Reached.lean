import SchemaLoom.Proofs.Discovery.Entries

/-!
# What is reached is found

The entries that the walk comes to are those of the objects that it reaches, up to the first import
of each. They come in the order of the document. So a document's calls are exactly those that its
reached objects ask for, each once, at the place of the entry that asks for it.
-/

namespace SchemaLoom

/-- The location of the entry that asks for a call. -/
def DeferredCall.place (call : DeferredCall) : Location :=
  call.context.location ++ [.key call.key]

namespace Discovery

/-- The entry is one of an object's and stands behind no import. -/
def Unclaimed (fields : Json.Fields) (key : String) (value : Json) : Prop :=
  ∃ before rest, fields = before ++ (key, value) :: rest ∧
    Directive.importKey ∉ Ordered.names before

/-- A way leads from a node to another one, through items of arrays and through entries of objects
that are no directives and stand behind no import. -/
inductive Reaches : Json → Location → Json → Prop
  | here (v : Json) : Reaches v [] v
  | item {items : List Json} {i : Nat} {u w : Json} {l : Location} : items[i]? = some u →
      Reaches u l w → Reaches (.array items) (.index i :: l) w
  | entry {fields : Json.Fields} {k : String} {u w : Json} {l : Location} :
      Unclaimed fields k u → Directive.looksLike k = false → Reaches u l w →
      Reaches (.object fields) (.key k :: l) w

/-- A text with a dollar sign, or an array with such a text. -/
inductive HoldsToken : Json → Prop
  | string {s : String} : '$' ∈ s.toList → HoldsToken (.string s)
  | array {items : List Json} {s : String} : .string s ∈ items → '$' ∈ s.toList →
      HoldsToken (.array items)

/-- What an object asks for: its import, and its templated fields that stand behind no import. -/
inductive Asks (fields : Json.Fields) : Action → Prop
  | importing {arguments : Json} : (Directive.importKey, arguments) ∈ fields →
      Asks fields (.importing arguments)
  | template {key : String} {value : Json} : Unclaimed fields key value →
      key ∈ Directive.templatedKeys → HoldsToken value → Asks fields (.template key)

variable {v u w : Json} {l : Location} {k : String} {fields : Json.Fields} {e : Entry}

/-! ## Unclaimed entries -/

theorem unclaimed_cons {n : String} :
    Unclaimed ((n, u) :: fields) k w ↔
      (k = n ∧ w = u) ∨ n ≠ Directive.importKey ∧ Unclaimed fields k w := by
  constructor
  · rintro ⟨before, rest, split, free⟩
    cases before with
    | nil =>
      simp only [List.nil_append, List.cons.injEq, Prod.mk.injEq] at split
      exact .inl ⟨split.1.1.symm, split.1.2.symm⟩
    | cons entry before =>
      obtain ⟨rfl, rfl⟩ := List.cons.inj split
      simp only [Ordered.names_cons, List.mem_cons, not_or] at free
      exact .inr ⟨Ne.symm free.1, before, rest, rfl, free.2⟩
  · rintro (⟨rfl, rfl⟩ | ⟨other, before, rest, rfl, free⟩)
    · exact ⟨[], fields, rfl, by simp⟩
    · exact ⟨(n, u) :: before, rest, rfl, by simpa using ⟨other.symm, free⟩⟩

theorem Unclaimed.mem (h : Unclaimed fields k w) : (k, w) ∈ fields := by
  obtain ⟨before, rest, rfl, -⟩ := h
  simp

theorem Unclaimed.mem_names (h : Unclaimed fields k w) : k ∈ Ordered.names fields :=
  List.mem_map_of_mem h.mem

theorem unclaimed_import (nodup : (Ordered.names fields).Nodup)
    (member : (Directive.importKey, w) ∈ fields) : Unclaimed fields Directive.importKey w := by
  obtain ⟨before, rest, rfl⟩ := List.append_of_mem member
  refine ⟨before, rest, rfl, fun earlier => ?_⟩
  rw [Ordered.names_append, Ordered.names_cons, List.nodup_append'] at nodup
  exact nodup.2.2 earlier List.mem_cons_self

/-! ## Ways -/

theorem reaches_nil : Reaches v [] w ↔ w = v :=
  ⟨fun h => by cases h; rfl, fun h => h ▸ .here v⟩

theorem Reaches.at? (h : Reaches v l w) (distinct : v.DistinctKeys) : v.at? l = some w := by
  induction h with
  | here => rfl
  | item element _ ih =>
    simp [Json.at?, Json.child?, element, ih (distinct.item (List.mem_of_getElem? element))]
  | entry unclaimed _ _ ih =>
    simp [Json.at?, Json.child?, Ordered.get?_of_mem distinct.nodup unclaimed.mem,
      ih (distinct.entry unclaimed.mem)]

theorem reaches_append {m : Location} :
    Reaches v (l ++ m) w ↔ ∃ u, Reaches v l u ∧ Reaches u m w := by
  induction l generalizing v with
  | nil => simp [reaches_nil]
  | cons s l ih =>
    constructor
    · intro reached
      cases reached with
      | item element reached =>
        obtain ⟨u, way, rest⟩ := ih.mp reached
        exact ⟨u, .item element way, rest⟩
      | entry unclaimed plain reached =>
        obtain ⟨u, way, rest⟩ := ih.mp reached
        exact ⟨u, .entry unclaimed plain way, rest⟩
    · rintro ⟨u, way, rest⟩
      cases way with
      | item element way => exact .item element (ih.mpr ⟨u, way, rest⟩)
      | entry unclaimed plain way => exact .entry unclaimed plain (ih.mpr ⟨u, way, rest⟩)

/-! ## The entries that the walk comes to -/

theorem mem_itemEntries {i : Nat} {items : List Json} :
    e ∈ itemEntries i items ↔
      ∃ j u, items[j]? = some u ∧ ∃ d ∈ entries u, e = d.below (.index (i + j)) := by
  induction items generalizing i with
  | nil => simp [itemEntries]
  | cons v items ih =>
    rw [itemEntries, List.mem_append, ih, List.mem_map]
    constructor
    · rintro (⟨d, member, rfl⟩ | ⟨j, u, element, d, member, rfl⟩)
      · exact ⟨0, v, rfl, d, member, rfl⟩
      · exact ⟨j + 1, u, element, d, member, by rw [Nat.add_assoc, Nat.add_comm 1 j]⟩
    · rintro ⟨j, u, element, d, member, rfl⟩
      cases j with
      | zero =>
        obtain rfl := Option.some.inj element
        exact .inl ⟨d, member, rfl⟩
      | succ j => exact .inr ⟨j, u, element, d, member, by rw [Nat.add_assoc, Nat.add_comm 1 j]⟩

theorem mem_fieldEntries :
    e ∈ fieldEntries fields ↔ (e.layer = [] ∧ Unclaimed fields e.key e.value) ∨
      ∃ k u, Unclaimed fields k u ∧ Directive.looksLike k = false ∧
        ∃ d ∈ entries u, e = d.below (.key k) := by
  induction fields with
  | nil => simp [fieldEntries, Unclaimed]
  | cons field fields ih =>
    obtain ⟨n, u⟩ := field
    have own : e = ⟨[], n, u⟩ ↔ e.layer = [] ∧ e.key = n ∧ e.value = u := by
      obtain ⟨layer, key, value⟩ := e
      simp
    rw [fieldEntries, List.mem_cons, own]
    simp only [unclaimed_cons]
    by_cases importing : n = Directive.importKey
    · have shaped : Directive.looksLike n = true := importing ▸ looksLike_importKey
      simp only [importing, if_true, List.not_mem_nil, or_false, ne_eq, not_true_eq_false,
        false_and]
      constructor
      · exact .inl
      · rintro (h | ⟨k, w, ⟨rfl, rfl⟩, plain, -⟩)
        · exact h
        · rw [looksLike_importKey] at plain
          exact absurd plain (by decide)
    · rw [if_neg importing, List.mem_append, ih]
      have inner : e ∈ (if Directive.looksLike n = true then []
          else (entries u).map (.below (.key n))) ↔
          Directive.looksLike n = false ∧ ∃ d ∈ entries u, e = d.below (.key n) := by
        cases shaped : Directive.looksLike n with
        | true => simp
        | false => simp [eq_comm]
      rw [inner]
      constructor
      · rintro (⟨here, rfl, rfl⟩ | ⟨plain, below⟩ | ⟨here, later⟩ | ⟨k, w, later, below⟩)
        · exact .inl ⟨here, .inl ⟨rfl, rfl⟩⟩
        · exact .inr ⟨n, u, .inl ⟨rfl, rfl⟩, plain, below⟩
        · exact .inl ⟨here, .inr ⟨importing, later⟩⟩
        · exact .inr ⟨k, w, .inr ⟨importing, later⟩, below⟩
      · rintro (⟨here, ⟨rfl, rfl⟩ | ⟨-, later⟩⟩ | ⟨k, w, ⟨rfl, rfl⟩ | ⟨-, later⟩, below⟩)
        · exact .inl ⟨here, rfl, rfl⟩
        · exact .inr (.inr (.inl ⟨here, later⟩))
        · exact .inr (.inl below)
        · exact .inr (.inr (.inr ⟨k, w, later, below⟩))

/-- The walk comes to the unclaimed entries of the objects that it reaches. -/
theorem mem_entries : e ∈ entries v ↔
    ∃ fields, Reaches v e.layer (.object fields) ∧ Unclaimed fields e.key e.value := by
  obtain ⟨l, k, w⟩ := e
  induction l generalizing v with
  | nil =>
    simp only [reaches_nil]
    cases v with
    | object fields =>
      rw [entries, mem_fieldEntries]
      constructor
      · rintro (⟨-, unclaimed⟩ | ⟨k, u, -, -, d, -, below⟩)
        · exact ⟨fields, rfl, unclaimed⟩
        · simp [Entry.below] at below
      · rintro ⟨_, same, unclaimed⟩
        exact .inl ⟨rfl, Json.object.inj same ▸ unclaimed⟩
    | array items =>
      rw [entries, mem_itemEntries]
      simp [Entry.below]
    | _ => simp [entries]
  | cons s l ih =>
    constructor
    · intro member
      cases v with
      | object fields =>
        rw [entries, mem_fieldEntries] at member
        rcases member with ⟨here, -⟩ | ⟨k, u, unclaimed, plain, ⟨l, _, _⟩, member, below⟩
        · simp at here
        · simp only [Entry.below, Entry.mk.injEq, List.cons.injEq] at below
          obtain ⟨⟨rfl, rfl⟩, rfl, rfl⟩ := below
          obtain ⟨inner, reached, holds⟩ := ih.mp member
          exact ⟨inner, .entry unclaimed plain reached, holds⟩
      | array items =>
        rw [entries, mem_itemEntries] at member
        obtain ⟨j, u, element, ⟨l, _, _⟩, member, below⟩ := member
        simp only [Entry.below, Entry.mk.injEq, List.cons.injEq, Nat.zero_add] at below
        obtain ⟨⟨rfl, rfl⟩, rfl, rfl⟩ := below
        obtain ⟨inner, reached, holds⟩ := ih.mp member
        exact ⟨inner, .item element reached, holds⟩
      | _ => simp [entries] at member
    · rintro ⟨inner, reached, holds⟩
      cases reached with
      | item element reached =>
        rw [entries, mem_itemEntries]
        exact ⟨_, _, element, _, ih.mpr ⟨inner, reached, holds⟩, by simp [Entry.below]⟩
      | entry unclaimed plain reached =>
        rw [entries, mem_fieldEntries]
        exact .inr ⟨_, _, unclaimed, plain, _, ih.mpr ⟨inner, reached, holds⟩, rfl⟩

/-! ## Their order -/

theorem place_of_mem_itemEntries {i : Nat} {items : List Json} (member : e ∈ itemEntries i items) :
    ∃ j l, i ≤ j ∧ e.place = .index j :: l := by
  obtain ⟨j, u, -, d, -, rfl⟩ := mem_itemEntries.mp member
  exact ⟨i + j, d.place, Nat.le_add_right _ _, rfl⟩

theorem place_of_mem_fieldEntries (member : e ∈ fieldEntries fields) :
    ∃ n l, n ∈ Ordered.names fields ∧ e.place = .key n :: l := by
  rcases mem_fieldEntries.mp member with ⟨here, unclaimed⟩ | ⟨k, u, unclaimed, -, d, -, rfl⟩
  · exact ⟨e.key, [], unclaimed.mem_names, by simp [Entry.place, here]⟩
  · exact ⟨k, d.place, unclaimed.mem_names, rfl⟩

/-- Entries at places that come in the order of a node. -/
def InOrder (v : Json) (found : List Entry) : Prop :=
  found.Pairwise fun a b => v.Before a.place b.place

theorem InOrder.below {s : Segment} {found : List Entry} (child : v.child? s = some u)
    (h : InOrder u found) : InOrder v (found.map (.below s)) :=
  List.pairwise_map.mpr (h.imp fun before => (Json.before_cons_iff child).mpr before)

theorem inOrder_itemEntries {i : Nat} {items : List Json}
    (inside : ∀ u ∈ items, InOrder u (entries u))
    (here : ∀ j, v.child? (.index (i + j)) = items[j]?) : InOrder v (itemEntries i items) := by
  induction items generalizing i with
  | nil => exact .nil
  | cons u items ih =>
    have child : v.child? (.index i) = some u := by simpa using here 0
    have later : ∀ j, v.child? (.index (i + 1 + j)) = items[j]? := by
      intro j
      rw [Nat.add_assoc, Nat.add_comm 1 j, here (j + 1), List.getElem?_cons_succ]
    rw [itemEntries]
    refine List.pairwise_append.mpr ⟨(inside u List.mem_cons_self).below child,
      ih (fun w member => inside w (List.mem_cons_of_mem _ member)) later, fun a ha b hb => ?_⟩
    obtain ⟨d, -, rfl⟩ := List.mem_map.mp ha
    obtain ⟨j, l, bound, place⟩ := place_of_mem_itemEntries hb
    rw [place]
    exact Json.before_of_rank (s := .index i) (t := .index j) bound _ _

theorem inOrder_fieldEntries {before fields : Json.Fields}
    (nodup : (Ordered.names (before ++ fields)).Nodup)
    (inside : ∀ field ∈ fields, InOrder field.2 (entries field.2)) :
    InOrder (.object (before ++ fields)) (fieldEntries fields) := by
  induction fields generalizing before with
  | nil => exact .nil
  | cons field fields ih =>
    obtain ⟨k, u⟩ := field
    have child : (Json.object (before ++ (k, u) :: fields)).child? (.key k) = some u :=
      Ordered.get?_of_mem nodup (by simp)
    have split : before ++ (k, u) :: fields = (before ++ [(k, u)]) ++ fields := by simp
    have later : InOrder (.object (before ++ (k, u) :: fields)) (fieldEntries fields) := by
      rw [split] at nodup ⊢
      exact ih nodup fun field member => inside field (List.mem_cons_of_mem _ member)
    have across : ∀ l, ∀ b ∈ fieldEntries fields,
        (Json.object (before ++ (k, u) :: fields)).Before (.key k :: l) b.place := by
      intro l b hb
      obtain ⟨n, m, name, place⟩ := place_of_mem_fieldEntries hb
      rw [place]
      exact Json.before_of_rank (Json.rank_key_lt nodup name) _ _
    have inner : InOrder (.object (before ++ (k, u) :: fields))
        (if Directive.looksLike k = true then [] else (entries u).map (.below (.key k))) := by
      split
      · exact .nil
      · exact (inside _ List.mem_cons_self).below child
    have below : ∀ a ∈ (if Directive.looksLike k = true then []
        else (entries u).map (Entry.below (.key k))), ∃ d : Entry, a = d.below (.key k) := by
      intro a ha
      split at ha
      · simp at ha
      · obtain ⟨d, -, rfl⟩ := List.mem_map.mp ha
        exact ⟨d, rfl⟩
    rw [fieldEntries]
    split
    · exact List.pairwise_singleton _ _
    · refine List.pairwise_cons.mpr ⟨fun b hb => ?_, List.pairwise_append.mpr
        ⟨inner, later, fun a ha b hb => ?_⟩⟩
      · rcases List.mem_append.mp hb with hb | hb
        · obtain ⟨d, rfl⟩ := below b hb
          rw [Entry.place_below]
          refine (Json.before_cons_iff child).mpr ?_
          obtain ⟨s, l, place⟩ := List.exists_cons_of_ne_nil
            (show d.place ≠ [] by simp [Entry.place])
          rw [place]
          exact Json.before_nil_cons _ _ _
        · exact across [] b hb
      · obtain ⟨d, rfl⟩ := below a ha
        exact across d.place b hb

/-- The walk comes to the entries in the order of the document. -/
theorem inOrder_entries (distinct : v.DistinctKeys) : InOrder v (entries v) := by
  induction distinct with
  | null | bool _ | number _ | string _ => exact .nil
  | @array items _ ih =>
    rw [entries]
    exact inOrder_itemEntries ih fun j => by simp [Json.child?]
  | @object fields nodup _ ih =>
    rw [entries]
    exact (inOrder_fieldEntries nodup ih : InOrder (.object ([] ++ fields)) _)

/-! ## What is asked for -/

theorem isTemplated_iff : isTemplated w = true ↔ HoldsToken w := by
  cases w with
  | string s =>
    simp only [isTemplated, Substitution.hasToken, List.contains_iff_mem]
    exact ⟨.string, fun | .string h => h⟩
  | array items =>
    simp only [isTemplated, List.any_eq_true]
    constructor
    · rintro ⟨item, member, asks⟩
      cases item with
      | string s =>
        exact .array member (by simpa [Json.asString?, Substitution.hasToken] using asks)
      | _ => simp [Json.asString?] at asks
    · intro holds
      cases holds with
      | array member dollar =>
        exact ⟨_, member, by simpa [Json.asString?, Substitution.hasToken] using dollar⟩
  | _ => exact ⟨fun h => by simp [isTemplated] at h, fun h => nomatch h⟩

/-- The unclaimed entries of an object ask for what the object asks for. -/
theorem asks_iff {action : Action} (nodup : (Ordered.names fields).Nodup) :
    Asks fields action ↔
      ∃ key value, Unclaimed fields key value ∧ (Entry.mk l key value).action? = some action := by
  constructor
  · rintro (member | @⟨key, value, unclaimed, member, holds⟩)
    · exact ⟨_, _, unclaimed_import nodup member, by simp [Entry.action?]⟩
    · have other : key ≠ Directive.importKey := by
        rintro rfl
        exact not_mem_templatedKeys looksLike_importKey member
      exact ⟨key, value, unclaimed, by
        simp [Entry.action?, other, member, isTemplated_iff.mpr holds]⟩
  · rintro ⟨key, value, unclaimed, asks⟩
    simp only [Entry.action?] at asks
    split at asks
    · rename_i importing
      obtain rfl := Option.some.inj asks
      exact .importing (importing ▸ unclaimed.mem)
    · split at asks
      · rename_i templated
        simp only [Bool.and_eq_true, List.contains_iff_mem, isTemplated_iff] at templated
        obtain rfl := Option.some.inj asks
        exact .template unclaimed templated.1 templated.2
      · simp at asks

/-! ## The calls of a document -/

theorem call?_eq_some {c : Context} {call : DeferredCall} (h : e.call? c v = some call) :
    e.action? = some call.action ∧ call.context = c.along e.layer v := by
  obtain ⟨action, asked, rfl⟩ := Option.map_eq_some_iff.mp h
  exact ⟨asked, rfl⟩

theorem key_of_action? {call : DeferredCall} (asked : e.action? = some call.action) :
    call.key = e.key := by
  simp only [Entry.action?] at asked
  split at asked
  · rename_i importing
    simp [DeferredCall.key, ← Option.some.inj asked, importing]
  · split at asked
    · simp [DeferredCall.key, ← Option.some.inj asked]
    · simp at asked

section

variable {document : Json} (distinct : document.DistinctKeys)
include distinct

theorem mem_calls {call : DeferredCall} : call ∈ (ofDocument document).calls ↔
    ∃ e ∈ entries document, e.call? (.ofRoot document) document = some call := by
  rw [ofDocument_eq distinct, ofEntries, List.mem_filterMap]

theorem place_of_call? {call : DeferredCall} (member : e ∈ entries document)
    (asked : e.call? (.ofRoot document) document = some call) :
    call.context.location = e.layer ∧ call.place = e.place := by
  obtain ⟨fields, reached, -⟩ := mem_entries.mp member
  obtain ⟨action, context⟩ := call?_eq_some asked
  have location : call.context.location = e.layer := by
    rw [context, Context.location_along _ (reached.at? distinct)]
    rfl
  exact ⟨location, by rw [DeferredCall.place, location, key_of_action? action, Entry.place]⟩

theorem before_calls :
    (ofDocument document).calls.Pairwise fun a b => document.Before a.place b.place := by
  rw [ofDocument_eq distinct, ofEntries, List.pairwise_filterMap]
  refine (inOrder_entries distinct).imp_of_mem fun {a b} ha hb before call asked call' asked' => ?_
  rw [(place_of_call? distinct ha asked).2, (place_of_call? distinct hb asked').2]
  exact before

theorem nodup_places : ((ofDocument document).calls.map DeferredCall.place).Nodup := by
  refine List.pairwise_map.mpr ((before_calls distinct).imp fun {a b} before same => ?_)
  rw [same] at before
  exact Json.Before.irrefl _ _ before

theorem exists_call_iff {l : Location} {action : Action} :
    (∃ call ∈ (ofDocument document).calls, call.context.location = l ∧ call.action = action) ↔
      ∃ fields, Reaches document l (.object fields) ∧ Asks fields action := by
  constructor
  · rintro ⟨call, member, rfl, rfl⟩
    obtain ⟨e, entry, asked⟩ := (mem_calls distinct).mp member
    obtain ⟨fields, reached, unclaimed⟩ := mem_entries.mp entry
    have nodup := (distinct.at? (reached.at? distinct)).nodup
    refine ⟨fields, (place_of_call? distinct entry asked).1 ▸ reached, ?_⟩
    exact (asks_iff (l := e.layer) nodup).mpr ⟨_, _, unclaimed, (call?_eq_some asked).1⟩
  · rintro ⟨fields, reached, asks⟩
    have nodup := (distinct.at? (reached.at? distinct)).nodup
    obtain ⟨key, value, unclaimed, asked⟩ := (asks_iff (l := l) nodup).mp asks
    have entry : (⟨l, key, value⟩ : Entry) ∈ entries document :=
      mem_entries.mpr ⟨fields, reached, unclaimed⟩
    have call : (⟨l, key, value⟩ : Entry).call? (.ofRoot document) document =
        some ⟨(Context.ofRoot document).along l document, action⟩ := by simp [Entry.call?, asked]
    exact ⟨_, (mem_calls distinct).mpr ⟨_, entry, call⟩,
      (place_of_call? distinct entry call).1, rfl⟩

end

/-! ## The unknown keys of a document -/

theorem unknown?_eq_some {key : String} : e.unknown? = some key ↔
    key = e.key ∧ Directive.looksLike e.key = true ∧ e.key ∉ Directive.known := by
  simp only [Entry.unknown?, Option.ite_none_right_eq_some, Bool.and_eq_true,
    Bool.not_eq_true', List.contains_eq_mem, decide_eq_false_iff_not, Option.some.injEq]
  exact ⟨fun h => ⟨h.2.symm, h.1⟩, fun h => ⟨h.2, h.1.symm⟩⟩

/-- The layers and keys of the directives that mean nothing. -/
def unknownPlaces (document : Json) : List (Location × String) :=
  (entries document).filterMap fun e => e.unknown?.map fun key => (e.layer, key)

theorem map_unknownPlaces (document : Json) :
    (unknownPlaces document).map Prod.snd = (entries document).filterMap (·.unknown?) := by
  simp [unknownPlaces, List.map_filterMap, Function.comp_def]

theorem mem_unknownPlaces {document : Json} {key : String} :
    (l, key) ∈ unknownPlaces document ↔ ∃ fields, Reaches document l (.object fields) ∧
      (∃ value, Unclaimed fields key value) ∧ Directive.looksLike key = true ∧
      key ∉ Directive.known := by
  simp only [unknownPlaces, List.mem_filterMap, Option.map_eq_some_iff, unknown?_eq_some,
    Prod.mk.injEq, mem_entries]
  constructor
  · rintro ⟨e, ⟨fields, reached, unclaimed⟩, _, ⟨rfl, shaped⟩, rfl, rfl⟩
    exact ⟨fields, reached, ⟨_, unclaimed⟩, shaped⟩
  · rintro ⟨fields, reached, ⟨value, unclaimed⟩, shaped⟩
    exact ⟨⟨l, key, value⟩, ⟨fields, reached, unclaimed⟩, key, ⟨rfl, shaped⟩, rfl, rfl⟩

theorem before_unknownPlaces {document : Json} (distinct : document.DistinctKeys) :
    (unknownPlaces document).Pairwise fun a b =>
      document.Before (a.1 ++ [.key a.2]) (b.1 ++ [.key b.2]) := by
  have place : ∀ {e : Entry} {p : Location × String},
      (e.unknown?.map fun key => (e.layer, key)) = some p → p.1 ++ [.key p.2] = e.place := by
    intro e p asked
    obtain ⟨key, unknown, rfl⟩ := Option.map_eq_some_iff.mp asked
    obtain ⟨rfl, -⟩ := unknown?_eq_some.mp unknown
    rfl
  refine List.pairwise_filterMap.mpr
    ((inOrder_entries distinct).imp fun before p asked q asked' => ?_)
  rw [place asked, place asked']
  exact before

/-- The calls of a document are, in the order of the document and each once, those that its reached
objects ask for; every call leads to the object that asks for it. The unknown keys are, in the order
of the document, those of the directives that mean nothing and stand behind no import in a reached
object. -/
theorem ofDocument_exact (document : Json) (distinct : document.DistinctKeys) :
    ((ofDocument document).calls.Pairwise fun a b => document.Before a.place b.place) ∧
    ((ofDocument document).calls.map DeferredCall.place).Nodup ∧
    (∀ l action, (∃ call ∈ (ofDocument document).calls,
        call.context.location = l ∧ call.action = action) ↔
      ∃ fields, Reaches document l (.object fields) ∧ Asks fields action) ∧
    (∀ call ∈ (ofDocument document).calls, ∃ fields,
      document.at? call.context.location = some (.object fields) ∧ Asks fields call.action ∧
      ∀ arguments, call.action = .importing arguments →
        Ordered.get? Directive.importKey fields = some arguments) ∧
    ∃ places : List (Location × String),
      (places.Pairwise fun a b => document.Before (a.1 ++ [.key a.2]) (b.1 ++ [.key b.2])) ∧
      (∀ l key, (l, key) ∈ places ↔ ∃ fields, Reaches document l (.object fields) ∧
        (∃ value, Unclaimed fields key value) ∧ Directive.looksLike key = true ∧
        key ∉ Directive.known) ∧
      (ofDocument document).unknown = places.map Prod.snd := by
  refine ⟨before_calls distinct, nodup_places distinct, fun l action => exists_call_iff distinct,
    fun call member => ?_, ?_⟩
  · obtain ⟨fields, reached, asks⟩ := (exists_call_iff distinct).mp ⟨call, member, rfl, rfl⟩
    refine ⟨fields, reached.at? distinct, asks, fun arguments importing => ?_⟩
    rw [importing] at asks
    cases asks with
    | importing entry =>
      exact Ordered.get?_of_mem (distinct.at? (reached.at? distinct)).nodup entry
  · refine ⟨unknownPlaces document, before_unknownPlaces distinct, fun l key =>
      mem_unknownPlaces, ?_⟩
    rw [ofDocument_eq distinct, map_unknownPlaces]
    rfl

/-- A document with an import behind a nested array, and with keys behind the import. -/
def layered : Json :=
  .object [
    ("$NOTE", .object [("description", .string "$id")]),
    ("properties", .object [("$LABEL", .null),
      ("description", .array [.string "of $title", .array [.object [("const", .string "$id")]]])]),
    ("$IMPORT", .object [("enum", .array [.string "$id"])]),
    ("$LATE", .null),
    ("description", .string "$title")]

theorem ofDocument_exact_layered :
    layered.DistinctKeys ∧
    (∃ call ∈ (ofDocument layered).calls,
      call.context.location = [.key "properties", .key "description", .index 1, .index 0] ∧
        call.action = .template "const") ∧
    (ofDocument layered).calls.map DeferredCall.place =
      [[.key "properties", .key "description"],
        [.key "properties", .key "description", .index 1, .index 0, .key "const"],
        [.key "$IMPORT"]] ∧
    (ofDocument layered).unknown = ["$NOTE", "$LABEL"] := by
  have distinct : layered.DistinctKeys := by decide +kernel
  obtain ⟨-, -, found, -, -⟩ := ofDocument_exact layered distinct
  refine ⟨distinct, (found _ _).mpr ⟨[("const", .string "$id")], ?_, ?_⟩, by decide +kernel,
    by decide +kernel⟩
  · refine .entry ⟨[_], _, rfl, by decide⟩ (by decide)
      (.entry ⟨[_], [], rfl, by decide⟩ (by decide) ?_)
    exact .item rfl (.item rfl (.here _))
  · exact .template ⟨[], [], rfl, by decide⟩ (by decide) (.string (by decide))

end Discovery

end SchemaLoom
