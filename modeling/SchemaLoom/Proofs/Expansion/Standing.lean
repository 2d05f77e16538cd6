import SchemaLoom.Proofs.Expansion.Outcomes

/-!
# Pending calls stand where they were found

While the calls of a document are executed, every call that is still pending leads to an object that
holds its key. A call changes its own layer, the texts directly in one of its fields, or the array
that holds the layer; and an import comes behind all calls in its layer. So an object that a pending
call leads to either stays as it is, possibly at another index, or holds the layer that is changed
and keeps its names.
-/

namespace SchemaLoom.Expansion

open Compile (shifted shifted_location)
open Splice (relocate relocated under)

/-! ## The effect of an outcome -/

/-- What an outcome does to the document around the layer at a location. -/
inductive Effect (document : Json) (l : Location) (fields : Json.Fields) :
    Outcome → Json × Option Splice → Prop where
  | expanded (key : String) (table : Substitution) : Effect document l fields (.expanded key table)
      (document.putAt l (.object (Ordered.modify key (expandField table) fields)), none)
  | settled (yields : List Splicing.Yield) (changed : Json.Fields) :
      Effect document l fields (.imported yields) (document.putAt l (.object changed), none)
  | spliced (yields : List Splicing.Yield) {array : Location} {before after : List Json}
      (branches : List Json) : l = array ++ [.index before.length] →
      document.at? array = some (.array (before ++ .object fields :: after)) →
      Effect document l fields (.imported yields)
        (document.putAt array (.array (before ++ branches ++ after)),
          some ⟨array, before.length, branches.length⟩)

variable {document : Json} {c : Context} {fields : Json.Fields} {outcome : Outcome}
  {r : Json × Option Splice}

theorem effect_of_settle {collected : Option (List Json)} {changed : Json.Fields}
    (here : document.at? c.location = some (.object fields)) (yields : List Splicing.Yield)
    (run : settle document c changed collected = .ok r) :
    Effect document c.location fields (.imported yields) r := by
  cases slot : c.arraySlot? with
  | none =>
    rw [settle_own slot ⟨_, here⟩] at run
    cases own : ownBranches changed collected with
    | error fault => simp [own, Except.map] at run
    | ok v =>
      rw [own] at run
      simp only [Except.map, Except.ok.injEq] at run
      subst run
      obtain ⟨more, rfl⟩ : ∃ more, v = .object more := by
        cases collected with
        | none => exact ⟨changed, (Except.ok.inj own).symm⟩
        | some branches =>
          simp only [ownBranches] at own
          cases h : withBranches changed branches with
          | error fault => simp [h, Except.map] at own
          | ok more =>
            rw [h] at own
            exact ⟨more, (Except.ok.inj own).symm⟩
      exact .settled yields more
  | some slotOf =>
    obtain ⟨array, i⟩ := slotOf
    have way := Context.location_of_arraySlot? slot
    obtain ⟨before, after, rfl, node⟩ := split_of_slot (way ▸ here)
    rw [settle_slot slot way node, Except.ok.injEq] at run
    subst run
    cases collected with
    | none =>
      have element : document.putAt c.location (.object changed) =
          document.putAt array (.array (before ++ .object changed :: after)) := by
        rw [way, Json.putAt, Json.modifyAt_append_eq_putAt _ _ node]
        simp [Json.modifyAt, Json.modifyChild, List.modify_eq_take_cons_drop]
      simp only [slotBranches, slotSplice, Option.map_none, List.append_assoc, List.cons_append,
        List.nil_append, ← element]
      exact .settled yields changed
    | some branches => exact .spliced yields branches way node

theorem effect_of_enact (here : document.at? c.location = some (.object fields))
    (run : outcome.enact document c = .ok r) : Effect document c.location fields outcome r := by
  cases outcome with
  | expanded key table =>
    rw [Outcome.enact, Json.modifyAt_append_eq_putAt _ _ here, Except.ok.injEq] at run
    subst run
    exact .expanded key table
  | imported yields =>
    rw [enact_imported here] at run
    cases placed : yields.foldlM placeIn (fields, none) with
    | error fault => simp [placed, Except.bind] at run
    | ok layer =>
      rw [placed] at run
      exact effect_of_settle here yields run

/-- An outcome in an object leaves an object with the same names, unless it is that of an import on
the object itself. -/
theorem Effect.object {l : Location} {g : Json.Fields}
    (h : Effect (.object g) l fields outcome r)
    (here : (Json.object g).at? l = some (.object fields))
    (own : ∀ yields, outcome = .imported yields → l ≠ []) :
    ∃ g', r.1 = .object g' ∧ Ordered.names g' = Ordered.names g := by
  cases h with
  | expanded key table =>
    cases l with
    | nil =>
      simp only [Json.at?, Option.some.injEq, Json.object.injEq] at here
      subst here
      exact ⟨_, rfl, Ordered.names_modify _ _⟩
    | cons t l => exact Json.modifyAt_object _ t l g
  | settled yields changed =>
    obtain ⟨t, l, rfl⟩ := List.exists_cons_of_ne_nil (own yields rfl)
    exact Json.modifyAt_object _ t l g
  | @spliced yields array before after branches way node =>
    cases array with
    | nil => simp [Json.at?] at node
    | cons t array => exact Json.modifyAt_object _ t array g

/-- Replacing the tokens in a field changes only the texts directly in it. -/
theorem at?_expandField (table : Substitution) {v : Json} {l : Location} {g : Json.Fields}
    (here : v.at? l = some (.object g)) :
    (expandField table v).at? l = some (.object g) := by
  cases v with
  | array items =>
    cases l with
    | nil => simp [Json.at?] at here
    | cons t l =>
      cases t with
      | key k => simp [Json.at?, Json.child?] at here
      | index i =>
        obtain ⟨item, element, rest⟩ := Option.bind_eq_some_iff.mp here
        have element : items[i]? = some item := element
        simp only [expandField, Json.at?, Json.child?, List.getElem?_map, element, Option.map_some,
          Option.bind_some]
        cases item with
        | string s => cases l <;> simp [Json.at?, Json.child?] at rest
        | _ => exact rest
  | string s => cases l <;> simp [Json.at?, Json.child?] at here
  | _ => exact here

theorem at?_expanded (key : String) (table : Substitution) {l : Location} {g : Json.Fields}
    (here : (Json.object fields).at? l = some (.object g)) (below : l ≠ []) :
    (Json.object (Ordered.modify key (expandField table) fields)).at? l = some (.object g) := by
  obtain ⟨t, l, rfl⟩ := List.exists_cons_of_ne_nil below
  cases t with
  | index i => simp [Json.at?, Json.child?] at here
  | key k =>
    obtain ⟨v, entry, rest⟩ := Option.bind_eq_some_iff.mp here
    have entry : Ordered.get? k fields = some v := entry
    by_cases same : k = key
    · subst same
      simp only [Json.at?, Json.child?, Ordered.get?_modify_self, entry, Option.map_some,
        Option.bind_some]
      exact at?_expandField table rest
    · simp only [Json.at?, Json.child?, Ordered.get?_modify_ne same, entry, Option.bind_some]
      exact rest

theorem getElem?_shiftIndex (array : Location) {before after : List Json} {v : Json}
    (branches : List Json) {j : Nat} (other : j ≠ before.length) :
    (before ++ branches ++ after)[Splice.shiftIndex ⟨array, before.length, branches.length⟩ j]? =
      (before ++ v :: after)[j]? := by
  unfold Splice.shiftIndex
  simp only
  by_cases behind : j > before.length
  · rw [if_pos behind, List.getElem?_append_right (by simp; omega),
      List.getElem?_append_right (by omega), List.getElem?_cons, if_neg (by omega)]
    congr 1
    simp only [List.length_append]
    omega
  · have bound : j < before.length := by omega
    rw [if_neg behind, List.append_assoc, List.getElem?_append_left bound,
      List.getElem?_append_left bound]

/-- An object that does not hold the layer stays, and moves with the splice. -/
theorem Effect.outside {l m : Location} {g : Json.Fields} (h : Effect document l fields outcome r)
    (here : document.at? l = some (.object fields)) (there : document.at? m = some (.object g))
    (notAbove : ¬ m <+: l) (notBelow : ∀ yields, outcome = .imported yields → ¬ l <+: m) :
    r.1.at? (relocated r.2.toList m) = some (.object g) := by
  cases h with
  | expanded key table =>
    by_cases below : l <+: m
    · obtain ⟨rest, rfl⟩ := below
      rw [Json.at?_append, here] at there
      simp only [Option.toList_none, Splice.relocated_nil]
      rw [Json.at?_append, Json.at?_putAt here]
      refine at?_expanded key table there fun eq => notAbove ?_
      simp [eq]
    · exact (Json.at?_putAt_beside here below notAbove _).trans there
  | settled yields changed =>
    exact (Json.at?_putAt_beside here (notBelow yields rfl) notAbove _).trans there
  | @spliced yields array before after branches way node =>
    subst way
    simp only [Option.toList_some, relocated, List.foldl_cons, List.foldl_nil]
    by_cases through : array <+: m
    · obtain ⟨rest, rfl⟩ := through
      rw [Json.at?_append, node] at there
      rcases rest with _ | ⟨_ | j, rest⟩
      · simp [Json.at?] at there
      · simp [Json.at?, Json.child?] at there
      · have other : j ≠ before.length := by
          rintro rfl
          exact notBelow yields rfl ⟨rest, by simp⟩
        rw [Splice.relocate_index, Json.at?_append, Json.at?_putAt node]
        simp only [Option.bind_some, Json.at?, Json.child?] at there ⊢
        rwa [getElem?_shiftIndex array branches other]
    · rw [Splice.relocate_outside _ through]
      exact (Json.at?_putAt_beside node through
        (fun above => notAbove (above.trans (List.prefix_append _ _))) _).trans there

end SchemaLoom.Expansion
