import SchemaLoom.Proofs.Expansion.Standing

/-!
# Locations and splices agree

A location that is moved along with a splice leads to the node to which it led before. The node is
the same, unless the spliced array lies in it: then the array is spliced inside the node. What holds
of one splice holds, one after the other, of any number of them.
-/

namespace SchemaLoom

/-- Elements that take the place of one element of the array at a location. -/
structure Replacement where
  array : Location
  index : Nat
  elements : List Json

namespace Replacement

variable (r : Replacement)

/-- Where the replaced element was, and how many elements are there now. -/
def splice : Splice := ⟨r.array, r.index, r.elements.length⟩

/-- The location of the replaced element. -/
def slot : Location := r.array ++ [.index r.index]

/-- The array after the replacement. -/
def replaceIn : Json → Json
  | .array items => .array (Splicing.replaceElement items r.index r.elements)
  | v => v

/-- The document after the replacement. -/
def apply (document : Json) : Json := document.modifyAt r.replaceIn r.array

/-- The document has the array, and the array the element. -/
def Fits (document : Json) : Prop :=
  ∃ items, document.at? r.array = some (.array items) ∧ r.index < items.length

/-- The node at a location after the replacement: the array is spliced in it, if it lies there. -/
def inside (l : Location) (v : Json) : Json :=
  if l <+: r.array then v.modifyAt r.replaceIn (r.array.drop l.length) else v

/-- A location is that of a later element of the array, or below one. -/
def Moves (l : Location) : Prop := ∃ j rest, l = r.array ++ .index j :: rest ∧ r.index < j

variable {r}

/-- The array before and after the replacement, split at the element. -/
theorem Fits.split {document : Json} (fits : r.Fits document) : ∃ before v after,
    document.at? r.array = some (.array (before ++ v :: after)) ∧ before.length = r.index ∧
    r.replaceIn (.array (before ++ v :: after)) = .array (before ++ r.elements ++ after) := by
  obtain ⟨items, node, bound⟩ := fits
  have cut : items.take r.index ++ items[r.index] :: items.drop (r.index + 1) = items := by simp
  refine ⟨items.take r.index, items[r.index], items.drop (r.index + 1), cut ▸ node,
    List.length_take_of_le (Nat.le_of_lt bound), ?_⟩
  rw [cut]
  rfl

theorem relocate_of_not_moves {l : Location} (still : ¬ r.Moves l) :
    r.splice.relocate r.array l = l := by
  by_cases through : r.array <+: l
  · obtain ⟨rest, rfl⟩ := through
    have behind := r.splice.relocate_through r.array [] rest
    rw [List.append_nil] at behind
    rcases rest with _ | ⟨k | j, rest⟩
    · exact behind
    · exact behind
    · have bound : ¬ j > r.splice.index := fun behind => still ⟨j, rest, rfl, behind⟩
      rw [Splice.relocate_index, Splice.shiftIndex, if_neg bound]
  · exact r.splice.relocate_outside through

/-- A location is moved to where the node is after the replacement. -/
theorem at?_apply {document v : Json} {l : Location} (fits : r.Fits document)
    (node : document.at? l = some v) (apart : ¬ r.slot <+: l) :
    (r.apply document).at? (r.splice.relocate r.array l) = some (r.inside l v) := by
  obtain ⟨before, w, after, array, length, replaced⟩ := fits.split
  unfold apply inside
  by_cases above : l <+: r.array
  · obtain ⟨rest, way⟩ := above
    have still : ¬ r.Moves l := by
      rintro ⟨j, below, eq, -⟩
      have lengths := congrArg List.length (way.trans (List.append_nil _).symm)
      simp [eq] at lengths
    rw [relocate_of_not_moves still, if_pos ⟨rest, way⟩, ← way, List.drop_left,
      Json.modifyAt_append]
    exact Json.at?_modifyAt _ node
  · rw [if_neg above, Json.modifyAt_eq_putAt _ array, replaced]
    by_cases through : r.array <+: l
    · obtain ⟨rest, rfl⟩ := through
      rw [Json.at?_append, array] at node
      rcases rest with _ | ⟨_ | j, rest⟩
      · exact absurd (by simp) above
      · simp [Json.at?, Json.child?] at node
      · have other : j ≠ before.length := by
          rintro rfl
          exact apart ⟨rest, by simp [slot, length]⟩
        rw [Splice.relocate_index, Json.at?_append, Json.at?_putAt array]
        simp only [Option.bind_some, Json.at?, Json.child?] at node ⊢
        rw [splice, ← length, Expansion.getElem?_shiftIndex r.array r.elements other]
        exact node
    · rw [r.splice.relocate_outside through, Json.at?_putAt_beside array through above, node]

/-! ## One replacement after the other -/

/-- The document after replacements. -/
def applyAll (rs : List Replacement) (document : Json) : Json :=
  rs.foldl (fun document r => r.apply document) document

/-- The context after replacements, kept in step with each of them. -/
def follow (rs : List Replacement) (c : Context) : Context :=
  rs.foldl (fun c r => c.shiftAfter r.splice) c

/-- Every replacement fits the document that those before it left, and none of them replaces the
layer of the context or a node around it. -/
def Spare : List Replacement → Json → Context → Prop
  | [], _, _ => True
  | r :: rs, document, c =>
    r.Fits document ∧ ¬ r.slot <+: c.location ∧ Spare rs (r.apply document) (c.shiftAfter r.splice)

/-- The layer after replacements: what they do inside it. -/
def insideAll : List Replacement → Context → Json → Json
  | [], _, v => v
  | r :: rs, c, v => insideAll rs (c.shiftAfter r.splice) (r.inside c.location v)

theorem location_shiftAfter (s : Splice) (c : Context) :
    (c.shiftAfter s).location = s.relocate s.array c.location :=
  Splice.locate_shiftSteps s s.array c.steps

end Replacement

open Replacement

/-- Every splice that an import reports is what it did to the document. -/
theorem Splicing.replacement_of_insertBranches {document changed : Json} {layer : Context}
    {branches : List Json} {s : Splice}
    (run : insertBranches document layer branches = .ok (changed, some s)) :
    ∃ r : Replacement, r.Fits document ∧ r.elements = branches ∧ r.splice = s ∧
      r.apply document = changed := by
  unfold insertBranches at run
  split at run
  · split at run <;> simp at run
  · rename_i array index slot
    split at run
    · rename_i items node
      split at run
      · rename_i bound
        simp only [Except.ok.injEq, Prod.mk.injEq, Option.some.injEq] at run
        obtain ⟨rfl, rfl⟩ := run
        exact ⟨⟨array, index, branches⟩, ⟨items, node, bound⟩, rfl, rfl,
          Json.modifyAt_congr node rfl⟩
      · simp at run
    · simp at run

/-- A context that is kept in step with replacements leads to its layer, in which the replaced
arrays are spliced if they lie there. Its location changes only if one of them is of an earlier
element of an array on its way. -/
theorem Context.follow_leads (rs : List Replacement) (c : Context) {document v : Json}
    (node : document.at? c.location = some v) (spared : Spare rs document c) :
    (applyAll rs document).at? (follow rs c).location = some (insideAll rs c v) ∧
    ((∀ r ∈ rs, ¬ r.Moves c.location) → (follow rs c).location = c.location) := by
  induction rs generalizing c document v with
  | nil => exact ⟨node, fun _ => rfl⟩
  | cons r rs ih =>
    obtain ⟨fits, apart, spared⟩ := spared
    have moved := location_shiftAfter r.splice c
    have leads : (r.apply document).at? (c.shiftAfter r.splice).location =
        some (r.inside c.location v) := by
      rw [moved]
      exact at?_apply fits node apart
    obtain ⟨arrives, stays⟩ := ih (c.shiftAfter r.splice) leads spared
    refine ⟨arrives, fun still => ?_⟩
    obtain ⟨first, rest⟩ := List.forall_mem_cons.mp still
    have same : (c.shiftAfter r.splice).location = c.location :=
      moved.trans (relocate_of_not_moves first)
    exact (stays (same ▸ rest)).trans same

/-- A list of schemas in which the second one is a list again, beside another list. -/
def nestedSchemas : Json :=
  .object [("allOf", .array [.null, .array [.bool true, .bool false], .null]),
    ("anyOf", .array [.null])]

/-- The context of the inner list. -/
def nestedContext : Context :=
  ⟨.ofNode .schema .null,
    [⟨.key "allOf", .ofNode .container .null⟩, ⟨.index 1, .ofNode .container .null⟩]⟩

/-- The first schema gives way to three, and then the first one of the inner list to none. -/
def nestedReplacements : List Replacement :=
  [⟨[.key "allOf"], 0, [.null, .null, .null]⟩, ⟨[.key "allOf", .index 3], 0, []⟩]

/-- An element of the other list gives way to two. -/
def besideReplacement : Replacement := ⟨[.key "anyOf"], 0, [.null, .null]⟩

/-- The inner list moves by two and loses its first schema; it stays when the other list changes. -/
theorem Context.follow_leads_nested :
    nestedSchemas.at? nestedContext.location = some (.array [.bool true, .bool false]) ∧
    Spare nestedReplacements nestedSchemas nestedContext ∧
    (follow nestedReplacements nestedContext).location = [.key "allOf", .index 3] ∧
    (applyAll nestedReplacements nestedSchemas).at? [.key "allOf", .index 3] =
      some (.array [.bool false]) ∧
    Spare [besideReplacement] nestedSchemas nestedContext ∧
    ¬ besideReplacement.Moves nestedContext.location ∧
    (follow [besideReplacement] nestedContext).location = nestedContext.location := by
  have node : nestedSchemas.at? nestedContext.location =
      some (.array [.bool true, .bool false]) := rfl
  have spared : Spare nestedReplacements nestedSchemas nestedContext :=
    ⟨⟨_, rfl, by decide⟩, by decide, ⟨_, rfl, by decide⟩, by decide, trivial⟩
  have beside : Spare [besideReplacement] nestedSchemas nestedContext :=
    ⟨⟨_, rfl, by decide⟩, by decide, trivial⟩
  have still : ¬ besideReplacement.Moves nestedContext.location := by
    rintro ⟨j, rest, way, -⟩
    exact absurd (List.cons.inj way).1 (by decide)
  exact ⟨node, spared, rfl, (Context.follow_leads _ _ node spared).1, beside, still,
    (Context.follow_leads _ _ node beside).2 (by simpa using still)⟩

end SchemaLoom
