import SchemaLoom.Docs.Correlation
import SchemaLoom.Location
import SchemaLoom.Proofs.Diagnostic
import SchemaLoom.Proofs.Ordered

/-!
# Gaps in descriptions

Correlating a document with a page appends descriptions to objects that have none and changes
nothing else. What is filled in is a text under a key that is not `properties`, so it makes no new
gap, and every name that it adds to a map of properties was already counted. A second correlation
therefore finds the document, and everything that it tells, as the first one left it.
-/

namespace SchemaLoom.Docs

variable {p : Page} {given : Option String} {ofProperties : Bool} {l : Location} {text : String}

/-! ## What a page tells -/

/-- What a page tells about the object at a location: its own description about the root, and that
of the first field of a name about a property of that name. -/
inductive Page.Describes (p : Page) : Location → String → Prop
  | root : p.description ≠ "" → Describes p [] p.description
  | property {l : Location} {name : String} {f : Field} : p.field? name = some f →
      f.description ≠ "" → Describes p (l ++ [.key propertiesKey, .key name]) f.description

theorem given?_eq_some {name : String} : p.given? name = some text ↔
    ∃ f, p.field? name = some f ∧ f.description = text ∧ text ≠ "" := by
  simp only [Page.given?, Option.filter_eq_some_iff, Option.map_eq_some_iff, decide_eq_true_eq]
  tauto

/-- What a page tells about the root. -/
def Page.aboutRoot? (p : Page) : Option String :=
  if p.description = "" then none else some p.description

theorem describes_nil : p.Describes [] text ↔ p.aboutRoot? = some text := by
  unfold Page.aboutRoot?
  constructor
  · intro tells
    generalize root : ([] : Location) = l at tells
    cases tells with
    | root nonempty => simp [nonempty]
    | property _ _ => simp at root
  · intro tells
    split at tells
    · cases tells
    · obtain rfl := Option.some.inj tells
      exact .root ‹_›

theorem describes_concat {s : Segment} : p.Describes (l ++ [s]) text ↔
    ∃ name, s = .key name ∧ (∃ m, l = m ++ [.key propertiesKey]) ∧ p.given? name = some text := by
  simp only [given?_eq_some]
  constructor
  · intro tells
    generalize way : l ++ [s] = place at tells
    cases tells with
    | root _ => simp at way
    | @property m name f field nonempty =>
      have way : l ++ [s] = (m ++ [.key propertiesKey]) ++ [.key name] := by simpa using way
      obtain ⟨rfl, last⟩ := List.append_inj' way rfl
      exact ⟨name, List.singleton_inj.mp last, ⟨m, rfl⟩, f, field, rfl, nonempty⟩
  · rintro ⟨name, rfl, ⟨m, rfl⟩, f, field, rfl, nonempty⟩
    simpa using Page.Describes.property (l := m) field nonempty

/-! ## Filling -/

/-- A document with its gaps filled: an object without a description about which something is told
has that as its description behind its other entries, and nothing else differs. -/
inductive Filled (tells : Location → String → Prop) : Location → Json → Json → Prop
  | leaf {l : Location} {v : Json} : v.isContainer = false → Filled tells l v v
  | array {l : Location} {items items' : List Json} : items'.length = items.length →
      (∀ (i : Nat) v v', items[i]? = some v → items'[i]? = some v' →
        Filled tells (l ++ [.index i]) v v') →
      Filled tells l (.array items) (.array items')
  | kept {l : Location} {fields fields' : Json.Fields} :
      Ordered.names fields' = Ordered.names fields →
      (∀ (i : Nat) e e', fields[i]? = some e → fields'[i]? = some e' →
        Filled tells (l ++ [.key e.1]) e.2 e'.2) →
      (descriptionKey ∈ Ordered.names fields ∨ ∀ text, ¬ tells l text) →
      Filled tells l (.object fields) (.object fields')
  | described {l : Location} {fields fields' : Json.Fields} {text : String} :
      Ordered.names fields' = Ordered.names fields →
      (∀ (i : Nat) e e', fields[i]? = some e → fields'[i]? = some e' →
        Filled tells (l ++ [.key e.1]) e.2 e'.2) →
      descriptionKey ∉ Ordered.names fields → tells l text →
      Filled tells l (.object fields) (.object (fields' ++ [(descriptionKey, .string text)]))

theorem fillItems_eq (items : List Json) :
    fillItems p items = items.map (fillNode p none false) := by
  induction items with
  | nil => rfl
  | cons v items ih => rw [fillItems, ih, List.map_cons]

theorem fillFields_eq (fields : Json.Fields) : fillFields p ofProperties fields =
    fields.map fun e =>
      (e.1, fillNode p (givenTo p ofProperties e.1) (e.1 = propertiesKey) e.2) := by
  induction fields with
  | nil => rfl
  | cons e fields ih => rw [fillFields, ih, List.map_cons]

@[simp] theorem names_fillFields (fields : Json.Fields) :
    Ordered.names (fillFields p ofProperties fields) = Ordered.names fields := by
  simp [fillFields_eq, Ordered.names, Function.comp_def]

theorem describe_eq (given : Option String) (fields : Json.Fields) :
    (∃ text, given = some text ∧ descriptionKey ∉ Ordered.names fields ∧
      describe given fields = fields ++ [(descriptionKey, .string text)]) ∨
    ((descriptionKey ∈ Ordered.names fields ∨ given = none) ∧ describe given fields = fields) := by
  cases given with
  | none => exact .inr ⟨.inr rfl, rfl⟩
  | some text =>
    by_cases there : Ordered.contains descriptionKey fields = true
    · exact .inr ⟨.inl (Ordered.contains_iff.mp there), by simp only [describe, if_pos there]⟩
    · exact .inl ⟨text, rfl, fun member => there (Ordered.contains_iff.mpr member),
        by simp only [describe, if_neg there]⟩

mutual

/-- Every node is told what the page tells about it, and whether it stands under `properties`. -/
theorem filled_fillNode : (v : Json) → ∀ {l : Location} {given : Option String}
    {ofProperties : Bool}, (∀ text, given = some text ↔ p.Describes l text) →
    (ofProperties = true ↔ ∃ m, l = m ++ [.key propertiesKey]) →
    Filled p.Describes l v (fillNode p given ofProperties v)
  | .null, _, _, _, _, _ | .bool _, _, _, _, _, _ | .number _, _, _, _, _, _
  | .string _, _, _, _, _, _ => .leaf rfl
  | .array items, l, given, ofProperties, _, _ => by
    simp only [fillNode]
    exact .array (by rw [fillItems_eq, List.length_map])
      fun i v v' here there => filled_fillItems items here there i
  | .object fields, l, given, ofProperties, told, under => by
    simp only [fillNode]
    rcases describe_eq given (fillFields p ofProperties fields) with
      ⟨text, rfl, gap, described⟩ | ⟨noGap, kept⟩
    · rw [described]
      rw [names_fillFields] at gap
      exact .described (names_fillFields fields) (filled_fillFields fields under) gap
        ((told text).mp rfl)
    · rw [kept]
      rw [names_fillFields] at noGap
      refine .kept (names_fillFields fields) (filled_fillFields fields under)
        (noGap.imp_right fun nothing text tells => ?_)
      simp [(told text).mpr tells] at nothing

theorem filled_fillItems : (items : List Json) → ∀ {l : Location} {i : Nat} {v v' : Json},
    items[i]? = some v → (fillItems p items)[i]? = some v' → ∀ position,
    Filled p.Describes (l ++ [.index position]) v v'
  | [], _, _, _, _, here, _, _ => by simp at here
  | v :: items, l, i, w, w', here, there, position => by
    cases i with
    | zero =>
      simp only [fillItems, List.getElem?_cons_zero, Option.some.injEq] at here there
      subst here there
      refine filled_fillNode v ?_ ?_ <;> simp [describes_concat]
    | succ i =>
      simp only [fillItems, List.getElem?_cons_succ] at here there
      exact filled_fillItems items here there position

theorem filled_fillFields : (fields : List (String × Json)) → ∀ {l : Location}
    {ofProperties : Bool}, (ofProperties = true ↔ ∃ m, l = m ++ [.key propertiesKey]) →
    ∀ (i : Nat) (e e' : String × Json), fields[i]? = some e →
      (fillFields p ofProperties fields)[i]? = some e' →
      Filled p.Describes (l ++ [.key e.1]) e.2 e'.2
  | [], _, _, _, _, _, _, here, _ => by simp at here
  | e :: fields, l, ofProperties, under, i, d, d', here, there => by
    cases i with
    | zero =>
      simp only [fillFields, List.getElem?_cons_zero, Option.some.injEq] at here there
      subst here there
      refine filled_fillNode e.2 (fun text => ?_) ?_
      · simp [describes_concat, givenTo, under]
      · simp
    | succ i =>
      simp only [fillFields, List.getElem?_cons_succ] at here there
      exact filled_fillFields fields under i d d' here there

end

/-! ## Filling twice -/

theorem names_describe_congr {fields fields' : Json.Fields}
    (same : Ordered.names fields = Ordered.names fields') :
    Ordered.names (describe given fields) = Ordered.names (describe given fields') := by
  have alike : descriptionKey ∈ Ordered.names fields ↔ descriptionKey ∈ Ordered.names fields' := by
    rw [same]
  rcases describe_eq given fields with ⟨text, given_eq, gap, here⟩ | ⟨noGap, here⟩ <;>
  rcases describe_eq given fields' with ⟨text', given_eq', gap', there⟩ | ⟨noGap', there⟩
  · simp [here, there, same]
  · simp [given_eq, ← alike, gap] at noGap'
  · simp [given_eq', alike, gap'] at noGap
  · rw [here, there, same]

@[simp] theorem describe_none (fields : Json.Fields) : describe none fields = fields := rfl

theorem describe_describe (fields : Json.Fields) :
    describe given (describe given fields) = describe given fields := by
  rcases describe_eq given fields with ⟨text, rfl, -, described⟩ | ⟨-, kept⟩
  · have there : Ordered.contains descriptionKey (describe (some text) fields) = true := by
      simp [Ordered.contains_iff, described]
    rw [describe, if_pos there]
  · rw [kept, kept]

theorem fillFields_describe (fields : Json.Fields) :
    fillFields p ofProperties (describe given fields) =
      describe given (fillFields p ofProperties fields) := by
  cases given with
  | none => rfl
  | some text =>
    have same : Ordered.contains descriptionKey (fillFields p ofProperties fields) =
        Ordered.contains descriptionKey fields := by
      rw [Bool.eq_iff_iff, Ordered.contains_iff, Ordered.contains_iff, names_fillFields]
    simp only [describe, same]
    split
    · rfl
    · simp [fillFields_eq, fillNode]

mutual

theorem fillNode_fillNode : (v : Json) → ∀ {given : Option String} {ofProperties : Bool},
    fillNode p given ofProperties (fillNode p given ofProperties v) =
      fillNode p given ofProperties v
  | .null, _, _ | .bool _, _, _ | .number _, _, _ | .string _, _, _ => rfl
  | .array items, _, _ => by simp only [fillNode, fillItems_fillItems items]
  | .object fields, _, _ => by
    simp only [fillNode, fillFields_describe, fillFields_fillFields fields, describe_describe]

theorem fillItems_fillItems : (items : List Json) →
    fillItems p (fillItems p items) = fillItems p items
  | [] => rfl
  | v :: items => by simp only [fillItems, fillNode_fillNode v, fillItems_fillItems items]

theorem fillFields_fillFields : (fields : List (String × Json)) → ∀ {ofProperties : Bool},
    fillFields p ofProperties (fillFields p ofProperties fields) =
      fillFields p ofProperties fields
  | [], _ => rfl
  | e :: fields, _ => by
    simp only [fillFields, fillNode_fillNode e.2, fillFields_fillFields fields]

end

/-! ## What is told again -/

theorem get?_fillFields (name : String) (fields : Json.Fields) :
    Ordered.get? name (fillFields p ofProperties fields) = (Ordered.get? name fields).map
      (fillNode p (givenTo p ofProperties name) (name = propertiesKey)) := by
  induction fields with
  | nil => rfl
  | cons e fields ih =>
    obtain ⟨k, v⟩ := e
    by_cases here : k = name
    · simp [fillFields, Ordered.get?, here]
    · simp [fillFields, Ordered.get?, here, ih]

theorem get?_describe {name : String} (other : name ≠ descriptionKey) (fields : Json.Fields) :
    Ordered.get? name (describe given fields) = Ordered.get? name fields := by
  rcases describe_eq given fields with ⟨text, -, -, described⟩ | ⟨-, kept⟩
  · simp [described, Ordered.get?_append, Ordered.get?, other.symm]
  · rw [kept]

theorem ownNames_fill (fields : Json.Fields) :
    ownNames (givenTo p ofProperties propertiesKey)
        (describe given (fillFields p ofProperties fields)) =
      ownNames (givenTo p ofProperties propertiesKey) fields := by
  rw [ownNames, get?_describe (by decide), get?_fillFields, ownNames]
  cases Ordered.get? propertiesKey fields with
  | none => rfl
  | some v =>
    cases v with
    | object properties =>
      simp only [Option.map_some, fillNode, decide_true, describe_describe]
      exact names_describe_congr (names_fillFields properties)
    | _ => rfl

theorem declaredInFields_describe (fields : Json.Fields) :
    declaredInFields p (describe given fields) = declaredInFields p fields := by
  rcases describe_eq given fields with ⟨text, -, -, here⟩ | ⟨-, here⟩
  · rw [here]
    clear here
    induction fields with
    | nil => rfl
    | cons e fields ih => simp only [List.cons_append, declaredInFields, ih]
  · rw [here]

mutual

theorem declaredIn_fillNode : (v : Json) → ∀ {given : Option String} {ofProperties : Bool},
    declaredIn p ofProperties (fillNode p given ofProperties v) = declaredIn p ofProperties v
  | .null, _, _ | .bool _, _, _ | .number _, _, _ | .string _, _, _ => rfl
  | .array items, _, _ => by simp only [fillNode, declaredIn, declaredInItems_fillItems items]
  | .object fields, _, _ => by
    simp only [fillNode, declaredIn, ownNames_fill, declaredInFields_describe,
      declaredInFields_fillFields fields]

theorem declaredInItems_fillItems : (items : List Json) →
    declaredInItems p (fillItems p items) = declaredInItems p items
  | [] => rfl
  | v :: items => by
    simp only [fillItems, declaredInItems, declaredIn_fillNode v, declaredInItems_fillItems items]

theorem declaredInFields_fillFields : (fields : List (String × Json)) →
    ∀ {ofProperties : Bool},
    declaredInFields p (fillFields p ofProperties fields) = declaredInFields p fields
  | [], _ => rfl
  | e :: fields, _ => by
    simp only [fillFields, declaredInFields, declaredIn_fillNode e.2,
      declaredInFields_fillFields fields]

end

@[simp] theorem asString?_fillNode (v : Json) :
    (fillNode p given ofProperties v).asString? = v.asString? := by
  cases v <;> rfl

theorem get?_fillNode {name : String} (other : name ≠ descriptionKey) (v : Json) :
    (fillNode p given ofProperties v).get? name = (v.get? name).map
      (fillNode p (givenTo p ofProperties name) (name = propertiesKey)) := by
  cases v with
  | object fields =>
    simp only [fillNode, Json.get?, get?_describe other, get?_fillFields]
  | _ => rfl

theorem enumTexts_fillNode (v : Json) :
    enumTexts (fillNode p given ofProperties v) = enumTexts v := by
  rw [enumTexts, get?_fillNode (by decide), enumTexts]
  cases v.get? "enum" with
  | none => rfl
  | some members =>
    cases members with
    | array items =>
      simp [fillNode, fillItems_eq, List.filterMap_map]
    | _ => rfl

theorem isObjectSchema_fillNode (v : Json) :
    isObjectSchema (fillNode p given ofProperties v) = isObjectSchema v := by
  rw [isObjectSchema, Json.getString?, get?_fillNode (by decide), isObjectSchema, Json.getString?]
  cases v.get? "type" with
  | none => rfl
  | some type => simp

theorem mismatches_fillNode (id : String) (ignored : List String) (v : Json) :
    mismatches p id ignored (fillNode p given false v) = mismatches p id ignored v := by
  simp only [mismatches, missingValues, enumTexts_fillNode, isObjectSchema_fillNode,
    declaredIn_fillNode]

/-! ## Correlating -/

theorem describeRoot_object (fields : Json.Fields) :
    describeRoot p (.object fields) = .object (describe p.aboutRoot? fields) := rfl

mutual

theorem fillNode_of_no_fields (noFields : p.fields = []) : (v : Json) →
    ∀ {ofProperties : Bool}, fillNode p none ofProperties v = v
  | .null, _ | .bool _, _ | .number _, _ | .string _, _ => rfl
  | .array items, _ => by simp only [fillNode, fillItems_of_no_fields noFields items]
  | .object fields, _ => by simp only [fillNode, describe, fillFields_of_no_fields noFields fields]

theorem fillItems_of_no_fields (noFields : p.fields = []) : (items : List Json) →
    fillItems p items = items
  | [] => rfl
  | v :: items => by
    simp only [fillItems, fillNode_of_no_fields noFields v, fillItems_of_no_fields noFields items]

theorem fillFields_of_no_fields (noFields : p.fields = []) : (fields : List (String × Json)) →
    ∀ {ofProperties : Bool}, fillFields p ofProperties fields = fields
  | [], _ => rfl
  | e :: fields, ofProperties => by
    have nothing : givenTo p ofProperties e.1 = none := by
      simp [givenTo, Page.given?, Page.field?, noFields]
    simp only [fillFields, nothing, fillNode_of_no_fields noFields e.2,
      fillFields_of_no_fields noFields fields]

end

theorem fillNode_describeRoot (v : Json) :
    fillNode p none false (describeRoot p v) = fillNode p p.aboutRoot? false v := by
  cases v with
  | object fields => simp only [describeRoot_object, fillNode, fillFields_describe, describe_none]
  | _ => rfl

theorem describeRoot_fillNode (v : Json) :
    describeRoot p (fillNode p p.aboutRoot? false v) = fillNode p p.aboutRoot? false v := by
  cases v with
  | object fields => simp only [fillNode, describeRoot_object, describe_describe]
  | _ => rfl

theorem correlate_eq (id : String) (ignored : List String) (document : Json) :
    correlate p id ignored document = (fillNode p p.aboutRoot? false document,
      mismatches p id ignored (describeRoot p document)) := by
  rw [correlate, ← fillNode_describeRoot]
  split
  · rw [fillNode_of_no_fields (List.isEmpty_iff.mp ‹_›)]
  · rfl

end SchemaLoom.Docs
