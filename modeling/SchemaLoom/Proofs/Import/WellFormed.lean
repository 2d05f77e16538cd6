import Mathlib.Data.List.Forall2
import Mathlib.Data.List.Pairwise
import SchemaLoom.Proofs.Import.Arguments
import SchemaLoom.Proofs.Json.Order

/-!
# Well-formed imports

A directive is read exactly when it is well formed: an object that names a family, has what the
family requires, and gives every argument in its shape and only once. It is read with the arguments
that are given; the others are empty.

A list of directives fails with its first bad element. What is wrong with an element is looked for
in a fixed order: its kind, its family, what is missing, and then its entries as they are written.
-/

namespace SchemaLoom

namespace Import

variable {f : Family} {fields : Json.Fields}

/-- The keys under which an argument may stand. -/
def spellings (name : String) : List String :=
  if name = "thenAdditions" then [name, "then_additions"] else [name]

/-- An argument of a directive is the one that is given, or empty when none is given. -/
inductive Takes (fields : Json.Fields) : String × Json → Prop
  | given {name key : String} {v : Json} : key ∈ spellings name →
      Ordered.get? key fields = some v → Takes fields (name, v)
  | noList {name : String} : (∀ key ∈ spellings name, Ordered.get? key fields = none) →
      Takes fields (name, .array [])
  | noMap {name : String} : (∀ key ∈ spellings name, Ordered.get? key fields = none) →
      Takes fields (name, .object [])

/-- The entries of a directive of a family: what is required is there, every argument has its shape,
and where additions are an argument they are given under one spelling. -/
structure WellFormed (f : Family) (fields : Json.Fields) : Prop where
  required : ∀ name ∈ f.required, Present fields name
  shaped : ∀ e ∈ fields, ∀ shape, f.shape? e.1 = some shape → Admits shape e.2
  additions : (f.shape? "thenAdditions").isSome →
    ¬ ("thenAdditions" ∈ Ordered.names fields ∧ "then_additions" ∈ Ordered.names fields)

/-- An object that names a family and is well formed for it. -/
def Accepted (v : Json) : Prop :=
  ∃ fields name f, v = .object fields ∧ Names fields name ∧ name ∈ Family.names f ∧
    WellFormed f fields

/-- What is wrong with an element. What is named last is looked for last. -/
inductive Faulty : Json → ImportFault → Prop
  | notAnObject {v : Json} : (∀ fields, v ≠ .object fields) →
      Faulty v (.invalidArgument (.notAnObject v))
  | nameless {fields : Json.Fields} : (∀ name, ¬ Names fields name) →
      Faulty (.object fields) (.missingArgument "type")
  | unknown {fields : Json.Fields} {name : String} : Names fields name →
      (∀ f : Family, name ∉ f.names) → Faulty (.object fields) (.unknownDirective name)
  | missing {fields : Json.Fields} {name argument : String} {f : Family}
      {before after : List String} : Names fields name → name ∈ f.names →
      f.required = before ++ argument :: after → (∀ a ∈ before, Present fields a) →
      ¬ Present fields argument → Faulty (.object fields) (.missingArgument argument)
  | entry {before after : Json.Fields} {e : String × Json} {name : String} {f : Family}
      {fault : ArgumentFault} : Names (before ++ e :: after) name → name ∈ f.names →
      (∀ a ∈ f.required, Present (before ++ e :: after) a) → Proper f before →
      BadEntry f before e fault →
      Faulty (.object (before ++ e :: after)) (.invalidArgument fault)

theorem mem_spellings (name : String) : name ∈ spellings name := by
  unfold spellings
  split <;> simp

theorem names_iff {name : String} : ImportDirective.familyName? fields = some name ↔
    Names fields name := by
  unfold ImportDirective.familyName? Names
  cases Ordered.get? "type" fields with
  | none =>
    cases Ordered.get? "format" fields with
    | none => simp
    | some v => cases v <;> simp [Json.asString?]
  | some v => cases v <;> simp [Json.asString?]

theorem missing_eq [DecidablePred (Present fields)] :
    missing f fields = f.required.filter fun name => ¬ Present fields name := by
  refine List.filter_congr fun name _ => ?_
  rw [Bool.eq_iff_iff, decide_eq_true_iff, Present]
  cases Ordered.get? name fields with
  | none => simp
  | some v => cases v <;> simp

/-- Different keys name one argument exactly if they are the two spellings of additions. -/
theorem canonical_eq_iff {key key' : String} (different : key ≠ key') :
    f.canonical key = f.canonical key' ↔ (f.shape? "thenAdditions").isSome ∧
      (key = "thenAdditions" ∧ key' = "then_additions" ∨
        key = "then_additions" ∧ key' = "thenAdditions") := by
  by_cases conditional : f = .conditional ∨ f = .conditionalContents
  · have known : (f.shape? "thenAdditions").isSome := by
      rcases conditional with rfl | rfl <;> decide
    have canonical (k : String) :
        f.canonical k = if k = "then_additions" then "thenAdditions" else k := by
      rcases conditional with rfl | rfl <;> rfl
    simp only [canonical, known, true_and]
    by_cases older : key = "then_additions"
    · subst older
      simp [Ne.symm different, eq_comm]
    · by_cases older' : key' = "then_additions"
      · subst older'
        simp [different]
      · simp [older, older', different]
  · have plain (k : String) : f.canonical k = k := by cases f <;> simp_all [Family.canonical]
    have unknown : (f.shape? "thenAdditions").isSome = false := by
      cases f <;> simp_all <;> decide
    simp [plain, unknown, different]

/-- Where no key is written twice, only additions can be given twice. -/
theorem nodup_argumentsIn (distinct : (Ordered.names fields).Nodup) :
    (argumentsIn f fields).Nodup ↔ ((f.shape? "thenAdditions").isSome →
      ¬ ("thenAdditions" ∈ Ordered.names fields ∧ "then_additions" ∈ Ordered.names fields)) := by
  have arguments : argumentsIn f fields = ((Ordered.names fields).map f.canonical).filter
      fun name => Ordered.contains name f.fields := by
    simp [argumentsIn, Ordered.names, Function.comp_def]
  rw [arguments, List.Nodup, List.pairwise_filter, List.pairwise_map]
  constructor
  · rintro apart known ⟨one, other⟩
    have same : f.canonical "thenAdditions" = f.canonical "then_additions" :=
      (canonical_eq_iff (by decide)).mpr ⟨known, .inl ⟨rfl, rfl⟩⟩
    have : Std.Symm fun a b => Ordered.contains (f.canonical a) f.fields = true →
        Ordered.contains (f.canonical b) f.fields = true → f.canonical a ≠ f.canonical b :=
      ⟨fun a b apart hb ha => (apart ha hb).symm⟩
    have known' : Ordered.contains (f.canonical "thenAdditions") f.fields = true := known
    exact apart.forall one other (by decide) known' (same ▸ known') same
  · intro once
    refine distinct.imp_of_mem fun {a b} ha hb different _ _ same => ?_
    obtain ⟨known, ⟨rfl, rfl⟩ | ⟨rfl, rfl⟩⟩ := (canonical_eq_iff different).mp same
    · exact once known ⟨ha, hb⟩
    · exact once known ⟨hb, ha⟩

theorem missing_eq_nil : missing f fields = [] ↔ ∀ name ∈ f.required, Present fields name := by
  classical
  simp [missing_eq]

theorem missing_eq_cons {argument : String} : (∃ rest, missing f fields = argument :: rest) ↔
    ∃ before after, f.required = before ++ argument :: after ∧
      (∀ name ∈ before, Present fields name) ∧ ¬ Present fields argument := by
  classical
  simp only [missing_eq, List.filter_eq_cons_iff, decide_eq_true_eq, not_not]
  constructor
  · rintro ⟨rest, before, after, split, present, absent, -⟩
    exact ⟨before, after, split, present, absent⟩
  · rintro ⟨before, after, split, present, absent⟩
    exact ⟨_, before, after, split, present, absent, rfl⟩

theorem wellFormed_iff (distinct : (Ordered.names fields).Nodup) :
    WellFormed f fields ↔ missing f fields = [] ∧ checkFields f [] fields = .ok ⟨⟩ := by
  rw [missing_eq_nil, checkFields_eq_ok]
  constructor
  · exact fun h => ⟨h.required, h.shaped, (nodup_argumentsIn distinct).mpr h.additions⟩
  · exact fun h => ⟨h.1, h.2.shaped, (nodup_argumentsIn distinct).mp h.2.once⟩

end Import

namespace ImportDirective

open Import

variable {fields : Json.Fields} {v : Json} {d : ImportDirective} {ds : List ImportDirective}
  {fault : ImportFault}

def family : ImportDirective → Family
  | .conditional _ => .conditional
  | .conditionalContents _ => .conditionalContents
  | .registry _ => .registry
  | .filesIntoArray _ => .filesIntoArray
  | .include_ _ => .include_

/-- The arguments of a directive as they would be written. -/
def arguments : ImportDirective → Json.Fields
  | .conditional a | .conditionalContents a =>
    [("path", .string a.path), ("condition", a.condition), ("replace", .object a.replace),
      ("variables", .object a.variableValues), ("exclude", .array (a.exclude.map .string)),
      ("thenAdditions", .object a.thenAdditions)]
  | .registry a =>
    [("registry_key", .string a.registryKey), ("output_key", .string a.outputKey),
      ("schema_structure", a.structure_), ("exclude", .array (a.exclude.map .string))]
  | .filesIntoArray a =>
    [("path", .string a.path), ("output_key", .string a.outputKey),
      ("schema_structure", a.structure_), ("exclude", .array (a.exclude.map .string))]
  | .include_ a => [("path", .string a.path), ("exclude", .array (a.exclude.map .string))]

/-- The directive of a value: it is of the family that is named, and has the arguments that are
given. -/
def ReadsFrom (v : Json) (d : ImportDirective) : Prop :=
  ∃ fields name, v = .object fields ∧ Names fields name ∧ name ∈ d.family.names ∧
    ∀ argument ∈ d.arguments, Takes fields argument

theorem parse_object {name : String} {f : Family} (named : Names fields name)
    (known : name ∈ f.names) : parse (.object fields) =
      match missing f fields with
      | argument :: _ => .error (.missingArgument argument)
      | [] =>
        match checkFields f [] fields with
        | .error fault => .error (.invalidArgument fault)
        | .ok ⟨⟩ => .ok (ofFields fields f) := by
  have chosen : Family.ofName? name = some f := Family.ofName?_eq_some.mpr known
  cases lacking : missing f fields with
  | cons argument rest => simp only [parse, names_iff.mpr named, chosen, lacking]
  | nil =>
    cases checked : checkFields f [] fields <;>
      simp only [parse, names_iff.mpr named, chosen, lacking, checked]

theorem parse_eq_error : parse v = .error fault ↔ Faulty v fault := by
  constructor
  · intro failed
    cases v with
    | object fields =>
      cases named : familyName? fields with
      | none =>
        simp only [parse, named, Except.error.injEq] at failed
        exact failed ▸ .nameless fun name is => by simp [names_iff.mpr is] at named
      | some name =>
        have is := names_iff.mp named
        cases family : Family.ofName? name with
        | none =>
          simp only [parse, named, family, Except.error.injEq] at failed
          exact failed ▸ .unknown is (Family.ofName?_eq_none.mp family)
        | some f =>
          have known := Family.ofName?_eq_some.mp family
          rw [parse_object is known] at failed
          cases lacks : missing f fields with
          | cons argument rest =>
            simp only [lacks, Except.error.injEq] at failed
            obtain ⟨before, after, split, present, absent⟩ := missing_eq_cons.mp ⟨rest, lacks⟩
            exact failed ▸ .missing is known split present absent
          | nil =>
            cases checked : checkFields f [] fields with
            | ok _ => simp [lacks, checked] at failed
            | error wrong =>
              simp only [lacks, checked, Except.error.injEq] at failed
              obtain ⟨before, e, after, rfl, proper, bad⟩ := checkFields_eq_error.mp checked
              exact failed ▸ .entry is known (missing_eq_nil.mp lacks) proper bad
    | _ =>
      cases failed
      exact .notAnObject (by simp)
  · intro faulty
    cases faulty with
    | notAnObject other => cases v <;> first | rfl | exact absurd rfl (other _)
    | @nameless fields nameless =>
      have unnamed : familyName? fields = none :=
        Option.eq_none_iff_forall_ne_some.mpr fun name is => nameless name (names_iff.mp is)
      simp only [parse, unnamed]
    | unknown named unknown =>
      simp only [parse, names_iff.mpr named, Family.ofName?_eq_none.mpr unknown]
    | missing named known split present absent =>
      obtain ⟨rest, lacks⟩ := missing_eq_cons.mpr ⟨_, _, split, present, absent⟩
      simp only [parse_object named known, lacks]
    | @entry before after e name f fault named known present proper bad =>
      have refused : checkFields f [] (before ++ e :: after) = .error fault :=
        checkFields_eq_error.mpr ⟨_, _, _, rfl, proper, bad⟩
      simp only [parse_object named known, missing_eq_nil.mpr present, refused]

theorem parse_eq_ok (distinct : v.DistinctKeys) : parse v = .ok d ↔
    ∃ fields name f, v = .object fields ∧ Names fields name ∧ name ∈ Family.names f ∧
      WellFormed f fields ∧ d = ofFields fields f := by
  constructor
  · intro parsed
    cases v with
    | object fields =>
      cases named : familyName? fields with
      | none => simp [parse, named] at parsed
      | some name =>
        cases family : Family.ofName? name with
        | none => simp [parse, named, family] at parsed
        | some f =>
          have is := names_iff.mp named
          have known := Family.ofName?_eq_some.mp family
          rw [parse_object is known] at parsed
          cases lacks : missing f fields with
          | cons argument rest => simp [lacks] at parsed
          | nil =>
            cases checked : checkFields f [] fields with
            | error wrong => simp [lacks, checked] at parsed
            | ok _ =>
              simp only [lacks, checked, Except.ok.injEq] at parsed
              exact ⟨fields, name, f, rfl, is, known,
                (wellFormed_iff distinct.nodup).mpr ⟨lacks, checked⟩, parsed.symm⟩
    | _ => cases parsed
  · rintro ⟨fields, name, f, rfl, named, known, wellFormed, rfl⟩
    obtain ⟨lacks, checked⟩ := (wellFormed_iff distinct.nodup).mp wellFormed
    simp only [parse_object named known, lacks, checked]

theorem accepted_iff (distinct : v.DistinctKeys) : Accepted v ↔ ∃ d, parse v = .ok d := by
  simp only [parse_eq_ok distinct]
  constructor
  · rintro ⟨fields, name, f, is, named, known, wellFormed⟩
    exact ⟨_, fields, name, f, is, named, known, wellFormed, rfl⟩
  · rintro ⟨d, fields, name, f, is, named, known, wellFormed, -⟩
    exact ⟨fields, name, f, is, named, known, wellFormed⟩

/-! ## What is read -/

section Reading

variable {f : Family} {name : String}

theorem takes_text (h : WellFormed f fields) (required : name ∈ f.required)
    (shape : f.shape? name = some (.shaped .text)) :
    Takes fields (name, .string (textArgument name fields)) := by
  obtain ⟨v, there, -⟩ := h.required name required
  cases h.shaped (name, v) (Ordered.mem_of_get? there) _ shape with
  | text s =>
    refine .given (mem_spellings name) ?_
    rw [textArgument, there]

theorem takes_any (h : WellFormed f fields) (required : name ∈ f.required) :
    Takes fields (name, anyArgument name fields) := by
  obtain ⟨v, there, -⟩ := h.required name required
  refine .given (mem_spellings name) ?_
  rw [anyArgument, there, Option.getD_some]

theorem takes_texts (h : WellFormed f fields) (shape : f.shape? name = some (.shaped .list))
    (spelling : spellings name = [name]) :
    Takes fields (name, .array ((textsArgument name fields).map .string)) := by
  cases there : Ordered.get? name fields with
  | none =>
    rw [textsArgument, there]
    exact .noList (by simpa [spelling] using there)
  | some v =>
    cases h.shaped (name, v) (Ordered.mem_of_get? there) _ shape with
    | list texts =>
      have read : (texts.map Json.string).filterMap Json.asString? = texts := by
        simp [List.filterMap_map, Function.comp_def, Json.asString?]
      refine .given (mem_spellings name) ?_
      simp only [textsArgument, there, read]

theorem get?_mapArgument {key : String} (h : WellFormed f fields)
    (shape : f.shape? key = some (.shaped .map)) :
    Ordered.get? key fields = some (.object (mapArgument key fields)) ∨
      Ordered.get? key fields = none ∧ mapArgument key fields = [] := by
  cases there : Ordered.get? key fields with
  | none => exact .inr ⟨rfl, by rw [mapArgument, there]⟩
  | some v =>
    cases h.shaped (key, v) (Ordered.mem_of_get? there) _ shape with
    | map entries => exact .inl (by rw [mapArgument, there])

theorem takes_map (h : WellFormed f fields) (shape : f.shape? name = some (.shaped .map))
    (spelling : spellings name = [name]) :
    Takes fields (name, .object (mapArgument name fields)) := by
  rcases get?_mapArgument h shape with there | ⟨absent, empty⟩
  · exact .given (mem_spellings name) there
  · exact empty ▸ .noMap (by simpa [spelling] using absent)

theorem takes_additions (h : WellFormed f fields)
    (shape : f.shape? "thenAdditions" = some (.shaped .map))
    (older : f.shape? "then_additions" = some (.shaped .map)) :
    Takes fields ("thenAdditions", .object (conditionalOf fields).thenAdditions) := by
  by_cases there : Ordered.contains "thenAdditions" fields = true
  · rw [conditionalOf, if_pos there]
    rcases get?_mapArgument h shape with given | ⟨absent, -⟩
    · exact .given (mem_spellings _) given
    · simp [Ordered.contains, absent] at there
  · rw [conditionalOf, if_neg there]
    rcases get?_mapArgument h older with given | ⟨absent, empty⟩
    · have spelled : "then_additions" ∈ spellings "thenAdditions" := by decide
      exact .given spelled given
    · rw [empty]
      refine .noMap fun key spelled => ?_
      have absent' : Ordered.get? "thenAdditions" fields = none := by
        simpa [Ordered.contains] using there
      have spelled : key = "thenAdditions" ∨ key = "then_additions" := by
        simpa [spellings] using spelled
      rcases spelled with rfl | rfl
      · exact absent'
      · exact absent

theorem family_ofFields : (ofFields fields f).family = f := by cases f <;> rfl

/-- A well-formed directive is read with its own arguments. -/
theorem takes_ofFields (h : WellFormed f fields) :
    ∀ argument ∈ (ofFields fields f).arguments, Takes fields argument := by
  cases f with
  | conditional | conditionalContents =>
    simp only [ofFields, arguments, List.mem_cons, List.not_mem_nil, or_false, forall_eq_or_imp,
      forall_eq]
    exact ⟨takes_text h (by decide) (by decide), takes_any h (by decide),
      takes_map h (by decide) (by decide), takes_map h (by decide) (by decide),
      takes_texts h (by decide) (by decide), takes_additions h (by decide) (by decide)⟩
  | registry | filesIntoArray =>
    simp only [ofFields, arguments, List.mem_cons, List.not_mem_nil, or_false, forall_eq_or_imp,
      forall_eq]
    exact ⟨takes_text h (by decide) (by decide), takes_text h (by decide) (by decide),
      takes_any h (by decide), takes_texts h (by decide) (by decide)⟩
  | include_ =>
    simp only [ofFields, arguments, List.mem_cons, List.not_mem_nil, or_false, forall_eq_or_imp,
      forall_eq]
    exact ⟨takes_text h (by decide) (by decide), takes_texts h (by decide) (by decide)⟩

theorem readsFrom_of_parse (distinct : v.DistinctKeys) (parsed : parse v = .ok d) :
    ReadsFrom v d := by
  obtain ⟨fields, name, f, rfl, named, known, wellFormed, rfl⟩ := (parse_eq_ok distinct).mp parsed
  exact ⟨fields, name, rfl, named, by rwa [family_ofFields], takes_ofFields wellFormed⟩

end Reading

/-! ## Lists of directives -/

/-- The elements of the value under an import key: its items, or the value itself. -/
def elements : Json → List Json
  | .array items => items
  | v => [v]

theorem parseAll_eq (v : Json) : parseAll v = parseList (elements v) := by
  cases v <;> rfl

theorem parseList_eq_ok {items : List Json} : parseList items = .ok ds ↔
    List.Forall₂ (fun v d => parse v = .ok d) items ds := by
  induction items generalizing ds with
  | nil => cases ds <;> simp [parseList]
  | cons v items ih =>
    rw [parseList]
    cases first : parse v with
    | error fault => cases ds <;> simp [first]
    | ok d =>
      cases rest : parseList items with
      | error fault => cases ds <;> simp [← ih, rest]
      | ok more => cases ds <;> simp [← ih, first, rest]

/-- A list fails as its first element that fails. -/
theorem parseList_eq_error {items : List Json} : parseList items = .error fault ↔
    ∃ before v after, items = before ++ v :: after ∧ (∀ u ∈ before, ∃ d, parse u = .ok d) ∧
      parse v = .error fault := by
  induction items with
  | nil => simp [parseList]
  | cons v items ih =>
    cases first : parse v with
    | error wrong =>
      rw [parseList, first]
      constructor
      · rintro ⟨⟩
        exact ⟨[], v, items, rfl, by simp, first⟩
      · rintro ⟨before, w, after, split, good, bad⟩
        cases before with
        | nil =>
          obtain ⟨rfl, -⟩ := List.cons.inj split
          obtain rfl := Except.error.inj (first.symm.trans bad)
          rfl
        | cons u before =>
          obtain ⟨rfl, -⟩ := List.cons.inj split
          obtain ⟨d, parsed⟩ := good v List.mem_cons_self
          simp [first] at parsed
    | ok d =>
      have step : parseList (v :: items) = .error fault ↔ parseList items = .error fault := by
        rw [parseList, first]
        cases parseList items <;> simp
      rw [step, ih]
      constructor
      · rintro ⟨before, w, after, rfl, good, bad⟩
        refine ⟨v :: before, w, after, rfl, ?_, bad⟩
        simpa using ⟨⟨d, first⟩, good⟩
      · rintro ⟨before, w, after, split, good, bad⟩
        cases before with
        | nil =>
          obtain ⟨rfl, -⟩ := List.cons.inj split
          simp [first] at bad
        | cons u before =>
          obtain ⟨rfl, rfl⟩ := List.cons.inj split
          exact ⟨before, w, after, rfl, fun x member => good x (List.mem_cons_of_mem _ member), bad⟩

theorem distinctKeys_of_mem_elements {w : Json} (distinct : v.DistinctKeys)
    (member : w ∈ elements v) : w.DistinctKeys := by
  cases v with
  | array items => exact distinct.item member
  | _ =>
    obtain rfl := List.mem_singleton.mp member
    exact distinct

/-- The value under an import key is read exactly if all its elements are well formed, and then into
one directive for each, in order; otherwise its first bad element says what is wrong. -/
theorem parseAll_exact (v : Json) (distinct : v.DistinctKeys) :
    ((∃ ds, parseAll v = .ok ds) ↔ ∀ w ∈ elements v, Accepted w) ∧
      (∀ ds, parseAll v = .ok ds → List.Forall₂ ReadsFrom (elements v) ds) ∧
      ∀ fault, parseAll v = .error fault ↔ ∃ before w after, elements v = before ++ w :: after ∧
        (∀ u ∈ before, Accepted u) ∧ Faulty w fault := by
  have below := fun w (member : w ∈ elements v) => distinctKeys_of_mem_elements distinct member
  rw [parseAll_eq]
  refine ⟨?_, fun ds parsed => ?_, fun fault => ?_⟩
  · constructor
    · rintro ⟨ds, parsed⟩ w member
      have all : List.Forall₂ (fun u d => (∃ d, parse u = .ok d) ∧ parse u = .ok d) (elements v)
          ds := (parseList_eq_ok.mp parsed).imp fun u d h => ⟨⟨d, h⟩, h⟩
      have parses := ((List.forall₂_and_left _ _).mp all).1 w member
      exact (accepted_iff (below w member)).mpr parses
    · intro all
      cases parsed : parseList (elements v) with
      | ok ds => exact ⟨ds, rfl⟩
      | error fault =>
        obtain ⟨before, w, after, split, -, bad⟩ := parseList_eq_error.mp parsed
        have member : w ∈ elements v := by simp [split]
        obtain ⟨d, good⟩ := (accepted_iff (below w member)).mp (all w member)
        simp [good] at bad
  · have parsed := (List.forall₂_and_left _ _).mpr ⟨below, parseList_eq_ok.mp parsed⟩
    exact parsed.imp fun w d h => readsFrom_of_parse h.1 h.2
  · rw [parseList_eq_error]
    constructor
    · rintro ⟨before, w, after, split, good, bad⟩
      refine ⟨before, w, after, split, fun u member => ?_, parse_eq_error.mp bad⟩
      exact (accepted_iff (below u (by simp [split, member]))).mpr (good u member)
    · rintro ⟨before, w, after, split, good, bad⟩
      refine ⟨before, w, after, split, fun u member => ?_, parse_eq_error.mpr bad⟩
      exact (accepted_iff (below u (by simp [split, member]))).mp (good u member)

/-- A directive under its older name with an entry that is no argument, a second one whose path is
no text, and a third one of no family. -/
def threeImports : Json := .array [
  .object [("note", .null), ("format", .string "allOfIfThen"), ("condition", .object []),
    ("then_additions", .object [("type", .string "object")]), ("path", .string "a")],
  .object [("path", .number (.int 1)), ("type", .string "include"),
    ("format", .string "allOfIfThen")],
  .object [("type", .string "includes")]]

/-- The first of them with one that names a template. -/
def twoImports : Json := .array [
  .object [("note", .null), ("format", .string "allOfIfThen"), ("condition", .object []),
    ("then_additions", .object [("type", .string "object")]), ("path", .string "a")],
  .object [("type", .string "include"), ("path", .string "b")]]

theorem parseAll_exact_threeImports :
    (threeImports.DistinctKeys ∧
      ∃ before w after, elements threeImports = before ++ w :: after ∧ (∀ u ∈ before, Accepted u) ∧
        Faulty w (.invalidArgument (.wrongShape ⟨.number (.int 1), .text⟩))) ∧
    twoImports.DistinctKeys ∧ (∀ w ∈ elements twoImports, Accepted w) ∧
      List.Forall₂ ReadsFrom (elements twoImports)
        [.conditional ⟨"a", .object [], [], [], [], [("type", .string "object")]⟩,
          .include_ ⟨"b", []⟩] := by
  refine ⟨⟨by decide, ?_⟩, by decide, ?_, ?_⟩
  · exact ((parseAll_exact threeImports (by decide)).2.2 _).mp (by rfl)
  · exact (parseAll_exact twoImports (by decide)).1.mp ⟨_, rfl⟩
  · exact (parseAll_exact twoImports (by decide)).2.1 _ (by rfl)

end ImportDirective

end SchemaLoom
