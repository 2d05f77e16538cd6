import SchemaLoom.Proofs.Context
import SchemaLoom.Proofs.DistinctKeys
import SchemaLoom.Proofs.Expansion.Layer

/-!
# Deferred execution is direct expansion

Calls are found in the document as it was read and executed on a document that earlier calls have
changed. What holds a run together: when the calls of a node are executed, the way of each of them,
moved by the splices so far, leads to the node, the node is still as it was read, and its calls
change nothing beside it but the indices behind its own slot.
-/

namespace SchemaLoom.Expansion

open Compile (Agree execute executeAll executeImport ofImport shifted)
open Splice (moved moved_append shiftSteps_outside shiftSteps_through)
open Step (locate)

variable (compile : Path → Compile CompiledSchema) (subject : Subject)

/-! ## What a run over a node leaves -/

/-- The node is replaced by a value, and ways beside it stay. -/
def NodeRun (document : Json) (l : Location) (splices : List Splice)
    (run : Json × List Splice) (v : Json) : Prop :=
  run.1 = document.putAt l v ∧ KeepsOutside l splices run.2

/-- The document and the ways beside the layer are as one last splice, if any, leaves them. -/
def LayerRun (l : Location) (splices : List Splice) (run : Json × List Splice)
    (settled : Json × Option Splice) : Prop :=
  run.1 = settled.1 ∧ ∀ steps, ¬ l <+: locate (moved splices steps) →
    moved run.2 steps = moved settled.2.toList (moved splices steps)

theorem LayerRun.nodeRun {document : Json} {l : Location} {splices : List Splice}
    {run : Json × List Splice} {v : Json}
    (h : LayerRun l splices run (document.putAt l v, none)) : NodeRun document l splices run v :=
  h

variable {splices : List Splice} {c : Context} {way : List Step} {document : Json}

/-! ## Calls on a layer -/

theorem executeFrom_ofField {k : String} {v : Json} (stands : StandsAt splices c way)
    (here : document.at? (locate way ++ [.key k]) = some v) :
    executeFrom compile subject document splices (Discovery.ofField c k v).calls =
      pure (document.putAt (locate way ++ [.key k]) (mapTexts (textsOf subject c k v) v),
        splices) := by
  simp only [Discovery.ofField, textsOf]
  split
  · simp only [executeFrom, Compile.shifted_eq, execute, pure_bind, Option.toList_none,
      List.append_nil, Compile.expandAt, show moved splices c.steps = way from stands,
      stands.table]
    rw [show (⟨c.root, way⟩ : Context).location = locate way from rfl,
      Json.modifyAt_eq_putAt _ here]
    rfl
  · simp [Discovery.none, executeFrom, mapTexts_id, Json.putAt_self here]

theorem inNode_of_not_isContainer {v : Json} (scalar : ¬ v.isContainer) (c : Context)
    (texts : String → String) :
    inNode compile subject c texts v = pure (mapTexts texts v) := by
  cases v with
  | array _ => simp [Json.isContainer] at scalar
  | object _ => simp [Json.isContainer] at scalar
  | _ => simp [inNode, mapTexts]

/-- The calls of an entry of a layer: its own, and those in it. -/
def entryCalls (c : Context) (k : String) (v : Json) : List DeferredCall :=
  (Discovery.ofField c k v).calls ++
    if v.isContainer then
      (Discovery.inNode (c.push (.key k) (Discovery.fieldKind c.current.kind k v) v) v).calls
    else []

theorem calls_append (a b : Discovery) : (a ++ b).calls = a.calls ++ b.calls := rfl

theorem calls_ite (b : Bool) (d : Discovery) :
    (if b then d else Discovery.none).calls = if b then d.calls else [] := by
  cases b <;> rfl

theorem inFields_cons_calls {k : String} (v : Json) (rest : List (String × Json))
    (noImport : k ≠ Directive.importKey) (plain : ¬ Directive.looksLike k) :
    (Discovery.inFields c ((k, v) :: rest)).calls =
      entryCalls c k v ++ (Discovery.inFields c rest).calls := by
  rw [Discovery.inFields, if_neg noImport, if_neg plain]
  simp only [calls_append, calls_ite, entryCalls, List.append_assoc]

theorem executeFrom_import {fields : Json.Fields} (stands : StandsAt splices c way)
    (here : document.at? (locate way) = some (.object fields)) (arguments : Json) :
    Agree (LayerRun (locate way) splices)
      (executeFrom compile subject document splices [⟨c, .importing arguments⟩])
      (importLayer compile subject arguments fields >>= fun r =>
        ofImport subject.id (settle document ⟨c.root, way⟩ r.1 r.2)) := by
  simp only [executeFrom, Compile.shifted_eq, execute, show moved splices c.steps = way from stands,
    executeImport_eq compile subject ⟨c.root, way⟩ here, bind_assoc]
  apply Agree.bind_same
  intro layer
  apply Agree.after
  intro settled
  exact Agree.pure ⟨rfl, fun steps _ => moved_append _ _ _⟩

/-! ## One case per node -/

/-- What is to be shown of a node. The branches of its import, if it has one, go into the node. -/
def NodeAgrees (v : Json) : Prop :=
  ∀ (c : Context) (texts : String → String) (document : Json) (splices : List Splice)
    (way : List Step), Leads splices c way → (∃ kind, c.current = .ofNode kind v) →
    (∀ fields, v = .object fields → (⟨c.root, way⟩ : Context).arraySlot? = none) →
    document.at? (locate way) = some (mapTexts texts v) →
    Agree (NodeRun document (locate way) splices)
      (executeFrom compile subject document splices (Discovery.inNode c v).calls)
      (inNode compile subject c texts v)

/-- What is to be shown of the entries of a layer behind those that are expanded. -/
def LayerAgrees (rest : Json.Fields) : Prop :=
  ∀ (c : Context) (expanded : Json.Fields) (document : Json) (splices : List Splice)
    (way : List Step), StandsAt splices c way → LeadsEntries (Ordered.names rest) splices c way →
    document.at? (locate way) = some (.object (expanded ++ rest)) →
    (Ordered.names (expanded ++ rest)).Nodup →
    Agree (LayerRun (locate way) splices)
      (executeFrom compile subject document splices (Discovery.inFields c rest).calls)
      (inLayer compile subject c expanded rest >>= fun r =>
        ofImport subject.id (settle document ⟨c.root, way⟩ r.1 r.2))

/-- What is to be shown of the items of an array behind those that are expanded. -/
def ItemsAgree (items : List Json) : Prop :=
  ∀ (c : Context) (texts : String → String) (i : Nat) (done : List Json) (document : Json)
    (splices : List Splice) (way : List Step), StandsAt splices c way →
    LeadsItems i done.length splices c way → c.current.isArray = true →
    document.at? (locate way) = some (.array (done ++ items.map (mapText texts))) →
    Agree (fun run out => NodeRun document (locate way) splices run (.array (done ++ out)))
      (executeFrom compile subject document splices (Discovery.inItems c i items).calls)
      (inItems compile subject c texts i items)

/-! ### Layers -/

theorem settle_putAt (document v : Json) (c : Context) (fields : Json.Fields)
    (collected : Option (List Json)) :
    settle (document.putAt c.location v) c fields collected =
      settle document c fields collected := by
  simp [settle]

theorem at?_entry {expanded rest : Json.Fields} {k : String} {v : Json}
    (here : document.at? (locate way) = some (.object (expanded ++ (k, v) :: rest)))
    (fresh : k ∉ Ordered.names expanded) : document.at? (locate way ++ [.key k]) = some v := by
  rw [Json.at?_append, here]
  simp [Json.at?, Json.child?, Ordered.get?_split v rest fresh]

theorem putAt_entry {expanded rest : Json.Fields} {k : String} {v : Json} (u : Json)
    (here : document.at? (locate way) = some (.object (expanded ++ (k, v) :: rest)))
    (fresh : k ∉ Ordered.names expanded) :
    document.putAt (locate way ++ [.key k]) u =
      document.putAt (locate way) (.object (expanded ++ (k, u) :: rest)) := by
  rw [Json.putAt, Json.modifyAt_append_eq_putAt _ _ here]
  simp [Json.modifyAt, Json.modifyChild, Ordered.modify_split v rest _ fresh]

theorem entry_agrees {k : String} {v : Json} (node : NodeAgrees compile subject v)
    (stands : StandsAt splices c way)
    (leads : ∀ kind, Leads splices (c.push (.key k) kind v) (way ++ [⟨.key k, .ofNode kind v⟩]))
    (here : document.at? (locate way ++ [.key k]) = some v) :
    Agree (NodeRun document (locate way ++ [.key k]) splices)
      (executeFrom compile subject document splices (entryCalls c k v))
      (inNode compile subject (c.push (.key k) (Discovery.fieldKind c.current.kind k v) v)
        (textsOf subject c k v) v) := by
  rw [entryCalls, executeFrom_append, executeFrom_ofField compile subject stands here, pure_bind]
  by_cases container : v.isContainer = true
  · rw [if_pos container]
    have inside := node (c.push (.key k) (Discovery.fieldKind c.current.kind k v) v)
      (textsOf subject c k v) (document.putAt (locate way ++ [.key k]) _) splices _
      (leads _) ⟨_, c.current_push _ _ _⟩ (fun _ _ => arraySlot?_key _ _ _ _)
      (by simpa using Json.at?_putAt here _)
    apply inside.mono
    rintro run u ⟨replaced, keeps⟩
    exact ⟨by simpa using replaced, by simpa using keeps⟩
  · rw [if_neg container, inNode_of_not_isContainer compile subject container]
    exact Agree.pure ⟨rfl, .refl _ _⟩

/-- Once an entry is expanded, the splices in it concern no later entry. -/
theorem LeadsEntries.after {k : String} {names : List String} {later : List Splice}
    (leads : LeadsEntries (k :: names) splices c way) (fresh : k ∉ names)
    (keeps : KeepsOutside (locate way ++ [.key k]) splices later) :
    LeadsEntries names later c way := by
  intro n member f more
  have before := leads n (List.mem_cons_of_mem _ member) f more
  rw [keeps, before]
  rw [before]
  rintro ⟨rest, eq⟩
  simp only [Step.locate_append, Step.locate_cons, List.append_assoc, List.append_cancel_left_eq,
    List.cons_append, List.nil_append, List.cons.injEq, Segment.key.injEq] at eq
  exact fresh (eq.1 ▸ member)

theorem StandsAt.after {s : Segment} {later : List Splice} (stands : StandsAt splices c way)
    (keeps : KeepsOutside (locate way ++ [s]) splices later) : StandsAt later c way := by
  unfold StandsAt at *
  rw [keeps, stands]
  rw [stands]
  intro inside
  have bound := inside.length_le
  simp only [List.length_append, List.length_cons, List.length_nil] at bound
  omega

theorem layerAgrees_nil : LayerAgrees compile subject [] := by
  intro c expanded document splices way _ _ here _
  simp only [List.append_nil] at here
  simp only [inLayer, pure_bind, settle]
  rw [show (⟨c.root, way⟩ : Context).location = locate way from rfl, Json.putAt_self here]
  exact Agree.pure ⟨rfl, fun _ _ => rfl⟩

theorem layerAgrees_cons {k : String} {v : Json} {rest : Json.Fields}
    (node : NodeAgrees compile subject v) (layer : LayerAgrees compile subject rest) :
    LayerAgrees compile subject ((k, v) :: rest) := by
  intro c expanded document splices way stands leads here nodup
  by_cases isImport : k = Directive.importKey
  · rw [Discovery.inFields, if_pos isImport, inLayer, if_pos isImport]
    exact executeFrom_import compile subject stands here v
  by_cases directive : Directive.looksLike k = true
  · have calls : (Discovery.inFields c ((k, v) :: rest)).calls =
        (Discovery.inFields c rest).calls := by
      rw [Discovery.inFields, if_neg isImport, if_pos directive]
      split <;> rfl
    rw [calls, inLayer, if_neg isImport, if_pos directive]
    exact layer c _ document splices way stands
      (fun n member => leads n (List.mem_cons_of_mem _ member)) (by simpa using here)
      (by simpa using nodup)
  · have fresh : k ∉ Ordered.names expanded ∧ k ∉ Ordered.names rest := by
      simp only [Ordered.names_append, Ordered.names_cons, List.nodup_append,
        List.nodup_cons] at nodup
      exact ⟨fun member => nodup.2.2 k member k List.mem_cons_self rfl, nodup.2.1.1⟩
    rw [inFields_cons_calls v rest isImport directive, executeFrom_append, inLayer,
      if_neg isImport, if_neg directive, bind_assoc]
    have entry := entry_agrees compile subject node stands
      (fun kind => leads.push List.mem_cons_self kind v) (at?_entry here fresh.1)
    apply entry.bind
    rintro ⟨_, later⟩ u ⟨rfl, keeps⟩
    rw [putAt_entry u here fresh.1]
    have inside := layer c (expanded ++ [(k, u)])
      (document.putAt (locate way) (.object (expanded ++ (k, u) :: rest))) later way
      (stands.after keeps) (leads.after fresh.2 keeps) (by simpa using Json.at?_putAt here _)
      (by simpa using nodup)
    simp only [show locate way = (⟨c.root, way⟩ : Context).location from rfl,
      settle_putAt] at inside ⊢
    apply inside.mono
    rintro run settled ⟨same, moves⟩
    refine ⟨same, fun steps outside => ?_⟩
    have stays := keeps.widen (List.prefix_append _ _) steps outside
    rw [moves steps (by rwa [stays]), stays]

/-! ### Items -/

/-- What an item of an array becomes. -/
def inElement (c : Context) (texts : String → String) (i : Nat) : Json → Compile (List Json)
  | .object fields => do
    let r ← inLayer compile subject (c.push (.index i) .schema (.object fields)) [] fields
    return slotBranches r.1 r.2
  | .string s => return [.string (texts s)]
  | v => do
    let v ← inNode compile subject (c.push (.index i) (Discovery.itemKind v) v) id v
    return [v]

theorem inItems_cons (c : Context) (texts : String → String) (i : Nat) (v : Json)
    (items : List Json) :
    inItems compile subject c texts i (v :: items) =
      inElement compile subject c texts i v >>= fun here =>
        inItems compile subject c texts (i + 1) items >>= fun there => pure (here ++ there) := by
  cases v <;> simp [inItems, inElement]

/-- The calls of an item of an array. -/
def elementCalls (c : Context) (i : Nat) (v : Json) : List DeferredCall :=
  if v.isContainer then (Discovery.inNode (c.push (.index i) (Discovery.itemKind v) v) v).calls
  else []

theorem inItems_cons_calls (c : Context) (i : Nat) (v : Json) (items : List Json) :
    (Discovery.inItems c i (v :: items)).calls =
      elementCalls c i v ++ (Discovery.inItems c (i + 1) items).calls := by
  rw [Discovery.inItems]
  simp only [calls_append, calls_ite, elementCalls]

/-- The item gave way to what it becomes, by at most one splice of the array. -/
def ElementRun (document : Json) (array : Location) (done after : List Json)
    (splices : List Splice) (run : Json × List Splice) (here : List Json) : Prop :=
  run.1 = document.putAt array (.array (done ++ here ++ after)) ∧
    ∃ last : Option Splice,
      (last = none ∧ here.length = 1 ∨ last = some ⟨array, done.length, here.length⟩) ∧
      ∀ steps, ¬ array ++ [.index done.length] <+: locate (moved splices steps) →
        moved run.2 steps = moved last.toList (moved splices steps)

namespace ElementRun

variable {array : Location} {done after here : List Json} {run : Json × List Splice}

theorem keepsOutside (h : ElementRun document array done after splices run here) :
    KeepsOutside array splices run.2 := by
  obtain ⟨_, last, cases, moves⟩ := h
  intro steps outside
  rw [moves steps fun inside => outside ((List.prefix_append _ _).trans inside)]
  rcases cases with ⟨rfl, _⟩ | rfl
  · rfl
  · exact shiftSteps_outside _ outside

theorem standsAt (h : ElementRun document (locate way) done after splices run here)
    (stands : StandsAt splices c way) : StandsAt run.2 c way := by
  obtain ⟨_, last, cases, moves⟩ := h
  unfold StandsAt at *
  rw [moves, stands]
  · rcases cases with ⟨rfl, _⟩ | rfl
    · rfl
    · exact Splice.shiftSteps_end _ _
  · rw [stands]
    intro inside
    have bound := inside.length_le
    simp only [List.length_append, List.length_cons, List.length_nil] at bound
    omega

/-- The items behind stand as far behind what the item became as they stood behind the item. -/
theorem leadsItems {i : Nat} (h : ElementRun document (locate way) done after splices run here)
    (leads : LeadsItems i done.length splices c way) :
    LeadsItems (i + 1) (done ++ here).length run.2 c way := by
  obtain ⟨_, last, cases, moves⟩ := h
  intro n f more
  have before := leads (n + 1) f more
  rw [show i + (n + 1) = i + 1 + n by omega] at before
  rw [moves, before]
  · rcases cases with ⟨rfl, single⟩ | rfl
    · simp [single, Nat.add_comm, Nat.add_left_comm]
    · change Context.shiftSteps _ (locate way) _ = _
      rw [shiftSteps_through, Splice.shiftIndex]
      rw [if_pos (by simp only; omega)]
      congr 4
      simp only [List.length_append]
      omega
  · rw [before]
    rintro ⟨rest, eq⟩
    simp at eq

end ElementRun

theorem at?_item {done after : List Json} {v : Json}
    (here : document.at? (locate way) = some (.array (done ++ v :: after))) :
    document.at? (locate way ++ [.index done.length]) = some v := by
  rw [Json.at?_append, here]
  simp [Json.at?, Json.child?]

theorem putAt_item {done after : List Json} {v : Json} (u : Json)
    (here : document.at? (locate way) = some (.array (done ++ v :: after))) :
    document.putAt (locate way ++ [.index done.length]) u =
      document.putAt (locate way) (.array (done ++ u :: after)) := by
  rw [Json.putAt, Json.modifyAt_append_eq_putAt _ _ here]
  simp [Json.modifyAt, Json.modifyChild, List.modify_eq_take_cons_drop]

/-- An object in an array: its branches take its slot. -/
theorem element_object {fields : Json.Fields} (layer : LayerAgrees compile subject fields)
    (distinct : (Ordered.names fields).Nodup) {i : Nat} {done after : List Json}
    (texts : String → String) (stands : StandsAt splices c way)
    (leads : LeadsItems i done.length splices c way) (inArray : c.current.isArray = true)
    (here : document.at? (locate way) = some (.array (done ++ .object fields :: after))) :
    Agree (ElementRun document (locate way) done after splices)
      (executeFrom compile subject document splices (elementCalls c i (.object fields)))
      (inElement compile subject c texts i (.object fields)) := by
  have inside := leads.push .schema (.object fields)
  have whole := layer (c.push (.index i) .schema (.object fields)) [] document splices _
    inside.standsAt (inside.entries _) (by simpa using at?_item here) (by simpa using distinct)
  have slot := arraySlot?_index c.root way done.length (.ofNode .schema (.object fields))
    (by rw [stands.current, inArray])
  rw [elementCalls, if_pos (by rfl), inElement]
  apply (whole.trans (z := inLayer compile subject
    (c.push (.index i) .schema (.object fields)) [] fields >>= fun r =>
      pure (slotBranches r.1 r.2)) (P := fun settled branches => ∃ collected,
        settled = (document.putAt (locate way) (.array (done ++ branches ++ after)),
          slotSplice (locate way) done.length collected) ∧
        (collected = none → branches.length = 1) ∧ ∀ b, collected = some b → b = branches)
    ?_).mono ?_
  · apply Agree.bind_same
    rintro ⟨fields, collected⟩
    change Agree _ (ofImport subject.id (settle document ⟨c.root, _⟩ fields collected)) _
    rw [settle_slot slot (by simp [Context.location, locate]) here]
    refine Agree.pure ⟨collected, rfl, ?_, ?_⟩
    · rintro rfl
      rfl
    · rintro b rfl
      rfl
  · rintro run branches ⟨settled, ⟨same, moves⟩, collected, rfl, single, given⟩
    refine ⟨same, slotSplice (locate way) done.length collected, ?_, fun steps outside => ?_⟩
    · cases collected with
      | none => exact .inl ⟨rfl, single rfl⟩
      | some b => exact .inr (by simp [slotSplice, given b rfl])
    · exact moves steps (by simpa using outside)

theorem element_agrees {v : Json} (node : NodeAgrees compile subject v)
    (layer : ∀ fields, v = .object fields → LayerAgrees compile subject fields)
    (distinct : v.DistinctKeys) {i : Nat} {done after : List Json} (texts : String → String)
    (stands : StandsAt splices c way) (leads : LeadsItems i done.length splices c way)
    (inArray : c.current.isArray = true)
    (here : document.at? (locate way) = some (.array (done ++ mapText texts v :: after))) :
    Agree (ElementRun document (locate way) done after splices)
      (executeFrom compile subject document splices (elementCalls c i v))
      (inElement compile subject c texts i v) := by
  have alone {run : Json × List Splice} {u : Json}
      (h : NodeRun document (locate way ++ [.index done.length]) splices run u) :
      ElementRun document (locate way) done after splices run [u] := by
    refine ⟨?_, none, .inl ⟨rfl, rfl⟩, h.2⟩
    rw [h.1, putAt_item u here]
    simp
  have unchanged : document.putAt (locate way ++ [.index done.length]) (mapText texts v) =
      document := Json.putAt_self (at?_item here)
  cases v with
  | object fields =>
    exact element_object compile subject (layer fields rfl) distinct.nodup texts stands leads
      inArray here
  | array items =>
    have inside := node (c.push (.index i) .container (.array items)) id document splices _
      (leads.push _ _) ⟨_, c.current_push _ _ _⟩ (by simp)
      (by rw [mapTexts_id]; simpa [mapText] using at?_item here)
    exact inside.map_right fun run u related => alone (by simpa using related)
  | string s => exact Agree.pure (alone ⟨unchanged.symm, .refl _ _⟩)
  | _ =>
    simp only [inElement, inNode, pure_bind]
    exact Agree.pure (alone ⟨unchanged.symm, .refl _ _⟩)

theorem itemsAgree_nil : ItemsAgree compile subject [] := by
  intro c texts i done document splices way _ _ _ here
  refine Agree.pure ⟨?_, .refl _ _⟩
  simp only [List.append_nil, List.map_nil] at here ⊢
  exact (Json.putAt_self here).symm

theorem itemsAgree_cons {v : Json} {items : List Json} (node : NodeAgrees compile subject v)
    (layer : ∀ fields, v = .object fields → LayerAgrees compile subject fields)
    (distinct : v.DistinctKeys) (rest : ItemsAgree compile subject items) :
    ItemsAgree compile subject (v :: items) := by
  intro c texts i done document splices way stands leads inArray here
  rw [inItems_cons_calls, executeFrom_append, inItems_cons]
  simp only [List.map_cons] at here
  apply (element_agrees compile subject node layer distinct texts stands leads inArray here).bind
  rintro ⟨_, later⟩ became element
  obtain rfl := element.1
  have inside := rest c texts (i + 1) (done ++ became) _ later way (element.standsAt stands)
    (element.leadsItems leads) inArray (Json.at?_putAt here _)
  apply inside.map_right
  rintro run out ⟨replaced, keeps⟩
  exact ⟨by simpa using replaced, element.keepsOutside.trans keeps⟩

/-! ### Whole documents -/

theorem nodeAgrees_object {fields : Json.Fields} (layer : LayerAgrees compile subject fields)
    (distinct : (Ordered.names fields).Nodup) : NodeAgrees compile subject (.object fields) := by
  intro c texts document splices way leads _ own here
  have whole := layer c [] document splices way leads.standsAt (leads.entries _) here
    (by simpa using distinct)
  have settled : Agree (fun settled v => settled = (document.putAt (locate way) v, none))
      (inLayer compile subject c [] fields >>= fun r =>
        ofImport subject.id (settle document ⟨c.root, way⟩ r.1 r.2))
      (inNode compile subject c texts (.object fields)) := by
    rw [inNode]
    apply Agree.bind_same
    rintro ⟨fields', collected⟩
    change Agree _ _ (ofImport subject.id (ownBranches fields' collected))
    rw [settle_own (own fields rfl) ⟨_, here⟩]
    cases ownBranches fields' collected with
    | error fault => exact Agree.ofImport (.error fault)
    | ok v => exact Agree.ofImport (.ok rfl)
  apply (whole.trans settled).mono
  rintro run v ⟨_, run, rfl⟩
  exact run.nodeRun

theorem nodeAgrees_array {items : List Json} (agree : ItemsAgree compile subject items) :
    NodeAgrees compile subject (.array items) := by
  intro c texts document splices way leads frame _ here
  obtain ⟨kind, frame⟩ := frame
  have inside := agree c texts 0 [] document splices way leads.standsAt leads.items
    (by simp [frame, Frame.ofNode]) here
  exact inside.map_right fun run out related => by simpa using related

theorem nodeAgrees_scalar {v : Json} (scalar : ¬ v.isContainer) : NodeAgrees compile subject v := by
  intro c texts document splices way _ _ _ here
  have noCalls : (Discovery.inNode c v).calls = [] := by
    cases v with
    | array _ => simp [Json.isContainer] at scalar
    | object _ => simp [Json.isContainer] at scalar
    | _ => rfl
  rw [noCalls, inNode_of_not_isContainer compile subject scalar]
  exact Agree.pure ⟨(Json.putAt_self here).symm, .refl _ _⟩

mutual

theorem nodeAgrees (v : Json) (distinct : v.DistinctKeys) : NodeAgrees compile subject v := by
  match v with
  | .object fields =>
    exact nodeAgrees_object compile subject
      (layerAgrees fields fun e member => distinct.entry member) distinct.nodup
  | .array items =>
    exact nodeAgrees_array compile subject
      (itemsAgree items fun u member => distinct.item member)
  | .null | .bool _ | .number _ | .string _ =>
    exact nodeAgrees_scalar compile subject (by simp [Json.isContainer])

theorem layerAgrees (fields : Json.Fields) (distinct : ∀ e ∈ fields, e.2.DistinctKeys) :
    LayerAgrees compile subject fields := by
  match fields with
  | [] => exact layerAgrees_nil compile subject
  | (k, v) :: rest =>
    exact layerAgrees_cons compile subject
      (nodeAgrees v (distinct _ List.mem_cons_self))
      (layerAgrees rest fun e member => distinct e (List.mem_cons_of_mem _ member))

theorem itemsAgree (items : List Json) (distinct : ∀ v ∈ items, v.DistinctKeys) :
    ItemsAgree compile subject items := by
  match items with
  | [] => exact itemsAgree_nil compile subject
  | v :: vs =>
    apply itemsAgree_cons compile subject (nodeAgrees v (distinct v List.mem_cons_self)) _
      (distinct v List.mem_cons_self)
      (itemsAgree vs fun u member => distinct u (List.mem_cons_of_mem _ member))
    rintro fields rfl
    exact layerAgrees fields fun e member => (distinct _ List.mem_cons_self).entry member

end

/-- An import that yields one branch for every template in the directory `kinds`. -/
def branchesOfKinds : Json :=
  .object [("type", .string "allOfIfThen"), ("path", .string "kinds"),
    ("condition", .string "$schemaName")]

/-- Two imports that yield branches in one array, and one more in an array below it. -/
def nestedImports : Json :=
  .object [("anyOf", .array
    [.object [("$IMPORT", branchesOfKinds)],
      .array [.object [("description", .string "of $fileName"), ("$IMPORT", branchesOfKinds)]],
      .object [("$IMPORT", .array [branchesOfKinds, branchesOfKinds])]])]

theorem branchesOfKinds_distinct : branchesOfKinds.DistinctKeys := by
  apply Json.DistinctKeys.object (by decide)
  simp [Json.DistinctKeys.string]

theorem nestedImports_distinct : nestedImports.DistinctKeys := by
  have importing : (Json.object [("$IMPORT", branchesOfKinds)]).DistinctKeys :=
    .object (by decide) (by simpa using branchesOfKinds_distinct)
  have described : (Json.object [("description", .string "of $fileName"),
      ("$IMPORT", branchesOfKinds)]).DistinctKeys :=
    .object (by decide) (by simpa using ⟨.string _, branchesOfKinds_distinct⟩)
  have twice : (Json.object
      [("$IMPORT", .array [branchesOfKinds, branchesOfKinds])]).DistinctKeys :=
    .object (by decide) (by simpa using .array (by simpa using branchesOfKinds_distinct))
  have nested : (Json.array [.object [("description", .string "of $fileName"),
      ("$IMPORT", branchesOfKinds)]]).DistinctKeys := .array (by simpa using described)
  exact .object (by decide)
    (by simpa using .array (by simpa using ⟨importing, nested, twice⟩))

end SchemaLoom.Expansion
