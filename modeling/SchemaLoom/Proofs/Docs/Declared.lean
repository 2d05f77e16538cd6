import SchemaLoom.Proofs.Discovery.Nearest
import SchemaLoom.Proofs.Docs.Filling
import SchemaLoom.Proofs.Json.Order

/-!
# What counts as declared

Correlating compares the fields of a page with the names of every object that stands under the key
`properties`. Where a map of names has an entry of its own under that key, that entry is a schema,
and its keywords count as names of properties too; everywhere else the names are those that the
schemas of the document declare.
-/

namespace SchemaLoom.Docs

variable {p : Page} {given : Option String} {ofProperties : Bool} {l : Location}
  {document v : Json} {n : String}

/-- An object stands under `properties` in the node at a location. -/
def MapAt (document : Json) (l : Location) (properties : Json.Fields) : Prop :=
  document.at? (l ++ [.key propertiesKey]) = some (.object properties)

theorem mapAt_nil {properties : Json.Fields} :
    MapAt v [] properties ↔ v.child? (.key propertiesKey) = some (.object properties) := by
  simp [MapAt, Json.at?]

theorem mapAt_cons {s : Segment} {properties : Json.Fields} :
    MapAt v (s :: l) properties ↔ ∃ u, v.child? s = some u ∧ MapAt u l properties := by
  simp [MapAt, Json.at?, Option.bind_eq_some_iff]

/-- The names that count as declared below a node at a location: those of every object under
`properties`, and that of the description which is filled into such an object. -/
def Counted (p : Page) (base : Location) (v : Json) (n : String) : Prop :=
  ∃ l properties, MapAt v l properties ∧ (n ∈ Ordered.names properties ∨
    n = descriptionKey ∧ ∃ text, p.Describes (base ++ l ++ [.key propertiesKey]) text)

/-- A schema of the document declares a property of a name. -/
def Declared (document : Json) (n : String) : Prop :=
  ∃ l properties, KindAt document l .schema ∧ MapAt document l properties ∧
    n ∈ Ordered.names properties

/-! ## What is counted -/

theorem mem_names_describe (fields : Json.Fields) : n ∈ Ordered.names (describe given fields) ↔
    n ∈ Ordered.names fields ∨ n = descriptionKey ∧ ∃ text, given = some text := by
  rcases describe_eq given fields with ⟨text, rfl, -, described⟩ | ⟨there | rfl, kept⟩
  · simp [described]
  · rw [kept]
    exact ⟨.inl, fun member => member.elim id fun filled => filled.1 ▸ there⟩
  · simp

theorem mem_ownNames (fields : Json.Fields) : n ∈ ownNames given fields ↔
    ∃ properties, Ordered.get? propertiesKey fields = some (.object properties) ∧
      (n ∈ Ordered.names properties ∨ n = descriptionKey ∧ ∃ text, given = some text) := by
  simp only [← mem_names_describe, ownNames]
  split
  · rename_i properties here
    simp [here, Ordered.names]
  · rename_i other
    simp only [List.not_mem_nil, false_iff]
    rintro ⟨properties, here, -⟩
    exact other properties here

theorem declaredInItems_eq (items : List Json) :
    declaredInItems p items = items.flatMap (declaredIn p false) := by
  induction items with
  | nil => rfl
  | cons v items ih => rw [declaredInItems, ih, List.flatMap_cons]

theorem declaredInFields_eq (fields : Json.Fields) : declaredInFields p fields =
    fields.flatMap fun e => declaredIn p (e.1 = propertiesKey) e.2 := by
  induction fields with
  | nil => rfl
  | cons e fields ih => rw [declaredInFields, ih, List.flatMap_cons]

/-- The names in a node are those of its own map of properties and those in its children. -/
theorem mem_declaredIn_children (distinct : v.DistinctKeys) : n ∈ declaredIn p ofProperties v ↔
    (∃ properties, v.child? (.key propertiesKey) = some (.object properties) ∧
      (n ∈ Ordered.names properties ∨
        n = descriptionKey ∧ ∃ text, givenTo p ofProperties propertiesKey = some text)) ∨
    ∃ s u, v.child? s = some u ∧ n ∈ declaredIn p (s = .key propertiesKey) u := by
  have below : (∃ s u, v.child? s = some u ∧ n ∈ declaredIn p (s = .key propertiesKey) u) ↔
      ∃ c ∈ v.children, n ∈ declaredIn p (c.1 = .key propertiesKey) c.2 := by
    simp [← Json.mem_children distinct]
  rw [below]
  cases v with
  | array items =>
    have placed : ∀ u, (∃ i, (u, i) ∈ items.zipIdx) ↔ u ∈ items := fun u => by
      rw [List.mem_iff_getElem?]
      exact exists_congr fun i => List.mem_zipIdx_iff_getElem?
    simp [declaredIn, declaredInItems_eq, Json.child?, Json.children, placed]
  | object fields =>
    simp only [declaredIn, mem_ownNames, declaredInFields_eq, Json.child?, Json.children,
      List.mem_append, List.mem_flatMap, List.mem_map, exists_exists_and_eq_and, Segment.key.injEq]
  | _ => simp [declaredIn, Json.child?, Json.children]

theorem counted_children {base : Location} : Counted p base v n ↔
    (∃ properties, v.child? (.key propertiesKey) = some (.object properties) ∧
      (n ∈ Ordered.names properties ∨
        n = descriptionKey ∧ ∃ text, p.Describes (base ++ [.key propertiesKey]) text)) ∨
    ∃ s u, v.child? s = some u ∧ Counted p (base ++ [s]) u n := by
  constructor
  · rintro ⟨l, properties, here, named⟩
    cases l with
    | nil => exact .inl ⟨properties, mapAt_nil.mp here, by simpa using named⟩
    | cons s l =>
      obtain ⟨u, child, here⟩ := mapAt_cons.mp here
      exact .inr ⟨s, u, child, l, properties, here, by simpa using named⟩
  · rintro (⟨properties, here, named⟩ | ⟨s, u, child, l, properties, here, named⟩)
    · exact ⟨[], properties, mapAt_nil.mpr here, by simpa using named⟩
    · exact ⟨s :: l, properties, mapAt_cons.mpr ⟨u, child, here⟩, by simpa using named⟩

theorem mem_declaredIn (distinct : v.DistinctKeys) : ∀ {base : Location} {ofProperties : Bool},
    (ofProperties = true ↔ ∃ m, base = m ++ [.key propertiesKey]) →
    (n ∈ declaredIn p ofProperties v ↔ Counted p base v n) := by
  induction distinct using Json.DistinctKeys.byChildren with
  | step v distinct ih =>
    intro base ofProperties under
    rw [mem_declaredIn_children distinct, counted_children]
    have told : ∀ text, givenTo p ofProperties propertiesKey = some text ↔
        p.Describes (base ++ [.key propertiesKey]) text := by
      intro text
      simp [describes_concat, givenTo, under]
    have inner : ∀ s u, v.child? s = some u →
        (n ∈ declaredIn p (s = .key propertiesKey) u ↔ Counted p (base ++ [s]) u n) :=
      fun s u child => ih s u child (by simp)
    simp only [told]
    exact or_congr_right (exists₂_congr fun s u => and_congr_right (inner s u))

/-! ## What schemas declare -/

theorem isContainer_of_child? {s : Segment} {u : Json} (child : v.child? s = some u) :
    v.isContainer = true := by
  cases v with
  | array _ | object _ => rfl
  | _ => cases s <;> simp [Json.child?] at child

theorem exists_kindAt (node : document.at? l = some v) (container : v.isContainer = true) :
    ∃ kind, KindAt document l kind := by
  induction l using List.reverseRecOn generalizing v with
  | nil => exact ⟨_, .root⟩
  | append_singleton l s ih =>
    rw [Json.at?_append, Option.bind_eq_some_iff] at node
    obtain ⟨u, here, last⟩ := node
    obtain ⟨w, child, leads⟩ := Option.bind_eq_some_iff.mp last
    obtain rfl := Option.some.inj leads
    obtain ⟨kind, around⟩ := ih here (isContainer_of_child? child)
    exact ⟨_, kindAt_child around (by simp [Json.at?_append, here, Json.at?, child]) container⟩

theorem MapAt.around {properties : Json.Fields} (h : MapAt document l properties) :
    ∃ fields kind, document.at? l = some (.object fields) ∧ KindAt document l kind := by
  obtain ⟨u, node, last⟩ :=
    Option.bind_eq_some_iff.mp ((Json.at?_append l _ document).symm.trans h)
  obtain ⟨w, child, -⟩ := Option.bind_eq_some_iff.mp last
  obtain ⟨kind, kindAt⟩ := exists_kindAt node (isContainer_of_child? child)
  cases u with
  | object fields => exact ⟨fields, kind, node, kindAt⟩
  | _ => simp [Json.child?] at child

/-- No map of names has an entry called `properties` that is an object. -/
def Plain (document : Json) : Prop :=
  ∀ l properties, MapAt document l properties → ¬ KindAt document l .container

theorem Plain.schema (plain : Plain document) {properties : Json.Fields}
    (h : MapAt document l properties) : KindAt document l .schema := by
  obtain ⟨-, kind, -, kindAt⟩ := h.around
  cases kind with
  | schema => exact kindAt
  | container => exact absurd kindAt (plain l properties h)

theorem Plain.counted_iff (plain : Plain document) :
    Counted p [] document n ↔ Declared document n := by
  constructor
  · rintro ⟨l, properties, here, named⟩
    refine ⟨l, properties, plain.schema here, here, named.resolve_right ?_⟩
    rintro ⟨-, text, tells⟩
    -- A map of properties is told something only as a property, under `properties` itself.
    obtain ⟨name, -, ⟨m, under⟩, -⟩ := describes_concat.mp tells
    obtain rfl : l = m ++ [.key propertiesKey] := by simpa using under
    obtain ⟨fields, -, node, -⟩ := here.around
    exact plain _ properties here (.map (plain.schema node) (by decide) node)
  · rintro ⟨l, properties, -, here, named⟩
    exact ⟨l, properties, here, .inl named⟩

/-! ## What differs -/

def missingValue (id value : String) : Diagnostic :=
  ⟨.fieldMismatch, id, s!"documented value `{value}` is missing from enum"⟩

def missingField (id : String) (f : Field) : Diagnostic :=
  ⟨.fieldMismatch, id, s!"documented field {f.label} is missing"⟩

def unexpectedProperty (id name : String) : Diagnostic :=
  ⟨.fieldMismatch, id, s!"unexpected property `{name}` is not documented"⟩

theorem distinct_concat (names : List String) (name : String) : distinct (names ++ [name]) =
    if name ∈ distinct names then distinct names else distinct names ++ [name] := by
  rw [distinct, List.foldl_append, ← distinct]
  simp only [List.foldl_cons, List.foldl_nil, List.contains_eq_mem, decide_eq_true_eq]

theorem mem_distinct {names : List String} : n ∈ distinct names ↔ n ∈ names := by
  induction names using List.reverseRecOn with
  | nil => rfl
  | append_singleton names name ih =>
    rw [distinct_concat, List.mem_append, List.mem_singleton, ← ih]
    split
    · rename_i known
      exact ⟨.inl, fun h => h.elim id fun eq => eq ▸ known⟩
    · rw [List.mem_append, List.mem_singleton]

theorem nodup_distinct (names : List String) : (distinct names).Nodup := by
  induction names using List.reverseRecOn with
  | nil => exact List.nodup_nil
  | append_singleton names name ih =>
    rw [distinct_concat]
    split
    · exact ih
    · rename_i fresh
      exact List.nodup_append'.mpr ⟨ih, List.nodup_singleton name, by simpa using fresh⟩

theorem declaredIn_describeRoot (document : Json) :
    declaredIn p false (describeRoot p document) = declaredIn p false document := by
  cases document with
  | object fields =>
    have same : ∀ given, Ordered.get? propertiesKey (describe given fields) =
        Ordered.get? propertiesKey fields := fun given => get?_describe (by decide) fields
    simp only [describeRoot, declaredIn, ownNames, same, declaredInFields_describe]
  | _ => rfl

/-- What is said apart from the properties is about the values and the type of the root. -/
theorem mismatches_eq (fields : p.fields ≠ []) (id : String) (ignored : List String) (v : Json) :
    ∃ others, mismatches p id ignored v = others ++
        (missingFields p ignored (declaredIn p false v)).map (missingField id) ++
        (unexpectedNames p ignored (declaredIn p false v)).map (unexpectedProperty id) ∧
      ∀ d ∈ others, d.kind = .schemaShapeMismatch ∨ ∃ w ∈ p.values, d = missingValue id w := by
  refine ⟨_, by simp only [mismatches, List.isEmpty_iff, if_neg fields]; rfl, fun d member => ?_⟩
  rcases List.mem_append.mp member with value | shape
  · obtain ⟨w, missing, rfl⟩ := List.mem_map.mp value
    refine .inr ⟨w, ?_, rfl⟩
    unfold missingValues at missing
    split at missing
    · exact List.mem_of_mem_filter missing
    · cases missing
  · split at shape
    · cases shape
    · exact .inl (List.mem_singleton.mp shape ▸ rfl)

/-- The fields reported missing are those that are not counted, not deprecated and not ignored; the
names reported as unexpected are those that are counted, not documented and not ignored, each one
once. In a plain document the names that count are those that its schemas declare. -/
theorem correlate_reports (page : Page) (id : String) (ignored : List String) (document : Json)
    (distinct : document.DistinctKeys) (fields : page.fields ≠ []) :
    ∃ (others : List Diagnostic) (missing : List Field) (unexpected : List String),
      (correlate page id ignored document).2 =
        others ++ missing.map (missingField id) ++ unexpected.map (unexpectedProperty id) ∧
      (∀ d ∈ others, d.kind = .schemaShapeMismatch ∨ ∃ v ∈ page.values, d = missingValue id v) ∧
      missing.Sublist page.fields ∧
      (∀ f, f ∈ missing ↔ f ∈ page.fields ∧ ¬ Counted page [] document f.name ∧
        f.isDeprecated = false ∧ f.name ∉ ignored) ∧
      unexpected.Nodup ∧
      (∀ n, n ∈ unexpected ↔
        Counted page [] document n ∧ page.field? n = none ∧ n ∉ ignored) ∧
      (Plain document → ∀ n, Counted page [] document n ↔ Declared document n) := by
  have counted : ∀ n, n ∈ declaredIn page false document ↔ Counted page [] document n :=
    fun n => mem_declaredIn distinct (by simp)
  obtain ⟨others, told, rest⟩ := mismatches_eq fields id ignored (describeRoot page document)
  rw [declaredIn_describeRoot] at told
  refine ⟨others, _, _, told, rest, List.filter_sublist, fun f => ?_, nodup_distinct _,
    fun n => ?_, fun plain n => plain.counted_iff⟩
  · simp [missingFields, counted, and_assoc]
  · simp [unexpectedNames, mem_distinct, counted]

/-! ## A property called `properties` -/

theorem mapAt_singleton {k : String} {properties : Json.Fields} :
    MapAt (.object [(k, v)]) l properties ↔
      (l = [] ∧ k = propertiesKey ∧ v = .object properties) ∨
        ∃ m, l = .key k :: m ∧ MapAt v m properties := by
  cases l with
  | nil => simp [mapAt_nil, Json.child?, Ordered.get?]
  | cons s l =>
    rw [mapAt_cons]
    cases s with
    | index i => simp [Json.child?]
    | key name =>
      by_cases here : k = name
      · simp [Json.child?, Ordered.get?, here]
      · simp [Json.child?, Ordered.get?, here, Ne.symm here]

theorem not_mapAt_string {s : String} {properties : Json.Fields} :
    ¬ MapAt (.string s) l properties := by
  cases l with
  | nil => simp [mapAt_nil, Json.child?]
  | cons t l => cases t <;> simp [mapAt_cons, Json.child?]

/-- A page with a field that is called `properties`, and one that may be absent. -/
def namingPage : Page :=
  ⟨"T", "", [⟨"properties", "Object", false, "Named things.", false⟩,
    ⟨"old", "", false, "Gone.", true⟩, ⟨"name", "", false, "Its name.", false⟩], []⟩

/-- A schema with a property of a name. -/
def naming (name : String) : Json :=
  .object [("properties", .object [(name, .object [("title", .string "Own")])])]

theorem plain_naming : Plain (naming "name") := by
  intro l properties here
  simp only [naming, mapAt_singleton, not_mapAt_string] at here
  simp only [propertiesKey, Json.object.injEq, String.reduceEq, false_and, and_false, exists_false,
    or_false, true_and] at here
  rw [here.1]
  exact fun container => by simpa using kindAt_nil container

theorem not_declared_naming : ¬ Declared (naming "properties") "title" := by
  rintro ⟨l, properties, schema, here, named⟩
  simp only [naming, mapAt_singleton, not_mapAt_string] at here
  simp only [propertiesKey, Json.object.injEq, String.reduceEq, false_and, and_false, exists_false,
    or_false, true_and, ↓existsAndEq] at here
  rcases here with ⟨rfl, rfl⟩ | ⟨rfl, rfl⟩
  · simp at named
  · exact absurd (schema.unique (.map (l := []) .root (by decide) rfl)) (by decide)

/-- Of a schema with a property called `properties` what that property says of itself is reported,
though no schema declares it. In one with a property called `name` what counts is declared. -/
theorem correlate_reports_naming :
    (naming "properties").DistinctKeys ∧ (naming "name").DistinctKeys ∧
    namingPage.fields ≠ [] ∧ ¬ Declared (naming "properties") "title" ∧
    (∃ (others : List Diagnostic) (missing : List Field) (unexpected : List String),
      (correlate namingPage "t" [] (naming "properties")).2 = others ++
        missing.map (missingField "t") ++ unexpected.map (unexpectedProperty "t") ∧
      ⟨"name", "", false, "Its name.", false⟩ ∈ missing ∧
      ⟨"properties", "Object", false, "Named things.", false⟩ ∉ missing ∧
      "title" ∈ unexpected ∧ "properties" ∉ unexpected) ∧
    Plain (naming "name") ∧
    (Counted namingPage [] (naming "name") "name" ↔ Declared (naming "name") "name") ∧
    Declared (naming "name") "name" := by
  have distinct : (naming "properties").DistinctKeys := by decide +kernel
  have distinct' : (naming "name").DistinctKeys := by decide +kernel
  have fields : namingPage.fields ≠ [] := by decide
  have counted : ∀ n, n ∈ declaredIn namingPage false (naming "properties") ↔
      Counted namingPage [] (naming "properties") n := fun n => mem_declaredIn distinct (by simp)
  obtain ⟨others, missing, unexpected, told, -, -, isMissing, -, isUnexpected, -⟩ :=
    correlate_reports namingPage "t" [] (naming "properties") distinct fields
  obtain ⟨-, -, -, -, -, -, -, -, -, counts⟩ :=
    correlate_reports namingPage "t" [] (naming "name") distinct' fields
  simp only [← counted] at isMissing isUnexpected
  refine ⟨distinct, distinct', fields, not_declared_naming,
    ⟨others, missing, unexpected, told, (isMissing _).mpr ?_, (isMissing _).not.mpr ?_,
      (isUnexpected _).mpr ?_, (isUnexpected _).not.mpr ?_⟩,
    plain_naming, counts plain_naming "name", [], _, .root, rfl, by simp⟩ <;>
  decide +kernel

end SchemaLoom.Docs
