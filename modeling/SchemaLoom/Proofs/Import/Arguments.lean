import Mathlib.Data.List.Induction
import Mathlib.Data.List.Nodup
import SchemaLoom.Import
import SchemaLoom.Json.Equality

/-!
# The arguments of imports

The entries of a directive give arguments of its family. They are read exactly if every argument has
its shape and is given only once; otherwise the first entry that is bad behind those before it says
what is wrong. Entries that are no arguments do not matter.
-/

namespace SchemaLoom

namespace Json

theorem textsOf_eq_ok {items : List Json} {texts : List String} :
    textsOf items = .ok texts ↔ items = texts.map .string := by
  induction items generalizing texts with
  | nil => cases texts <;> simp [textsOf]
  | cons v items ih =>
    cases v with
    | string s =>
      simp only [textsOf, asText]
      cases rest : textsOf items with
      | error mismatch => cases texts <;> simp [← ih, rest]
      | ok more => cases texts <;> simp [← ih, rest]
    | _ => cases texts <;> simp [textsOf, asText]

/-- The first item that is no text is the one that is missed. -/
theorem textsOf_eq_error {items : List Json} {mismatch : Mismatch} :
    textsOf items = .error mismatch ↔ ∃ (before : List String) (v : Json) (after : List Json),
      items = before.map .string ++ v :: after ∧ (∀ s, v ≠ .string s) ∧ mismatch = ⟨v, .text⟩ := by
  induction items with
  | nil => simp [textsOf]
  | cons v items ih =>
    by_cases text : ∃ s, v = .string s
    · obtain ⟨s, rfl⟩ := text
      have step : textsOf (.string s :: items) = .error mismatch ↔
          textsOf items = .error mismatch := by
        simp only [textsOf, asText]
        cases textsOf items <;> simp
      rw [step, ih]
      constructor
      · rintro ⟨before, v, after, rfl, other, rfl⟩
        exact ⟨s :: before, v, after, rfl, other, rfl⟩
      · rintro ⟨before, v, after, split, other, rfl⟩
        cases before with
        | nil => exact absurd (List.cons.inj split).1.symm (other s)
        | cons t before => exact ⟨before, v, after, (List.cons.inj split).2, other, rfl⟩
    · have other : ∀ s, v ≠ .string s := fun s eq => text ⟨s, eq⟩
      have step : textsOf (v :: items) = .error ⟨v, .text⟩ := by
        cases v <;> simp_all [textsOf, asText]
      rw [step, Except.error.injEq]
      constructor
      · rintro rfl
        exact ⟨[], v, items, rfl, other, rfl⟩
      · rintro ⟨before, w, after, split, -, rfl⟩
        cases before with
        | nil => rw [(List.cons.inj split).1]
        | cons t before => exact absurd (List.cons.inj split).1 (other t)

end Json

namespace Import

/-! ## Families and their arguments -/

namespace Family

/-- The names of a family; the second one, where there is one, is older. -/
def names : Family → List String
  | .conditional => ["import_as_conditional_array", "allOfIfThen"]
  | .conditionalContents => ["import_contents_as_conditional_array", "allOfIfThenUnique"]
  | .registry => ["import_minecraft_registry"]
  | .filesIntoArray => ["import_files_into_array"]
  | .include_ => ["include"]

theorem ofName?_eq_some {name : String} {f : Family} : ofName? name = some f ↔ name ∈ f.names := by
  constructor
  · intro named
    unfold ofName? at named
    split_ifs at named <;> cases named <;> simp_all [names]
  · intro named
    cases f <;> simp only [names, List.mem_cons, List.not_mem_nil, or_false] at named
    · rcases named with rfl | rfl <;> decide
    · rcases named with rfl | rfl <;> decide
    all_goals subst named; decide

theorem ofName?_eq_none {name : String} : ofName? name = none ↔ ∀ f : Family, name ∉ f.names := by
  simp only [← ofName?_eq_some]
  cases ofName? name <;> simp

/-- What the argument that a key names must be, if the key names one. -/
def shape? (f : Family) (key : String) : Option FieldShape :=
  Ordered.get? (f.canonical key) f.fields

end Family

/-- The text that names the family of a directive: the one under `type`, or the one under `format`
when nothing is under `type`. -/
def Names (fields : Json.Fields) (name : String) : Prop :=
  Ordered.get? "type" fields = some (.string name) ∨
    Ordered.get? "type" fields = none ∧ Ordered.get? "format" fields = some (.string name)

/-- An entry is there and not null. -/
def Present (fields : Json.Fields) (name : String) : Prop :=
  ∃ v, Ordered.get? name fields = some v ∧ v ≠ .null

/-- The values of a shape. -/
inductive Admits : FieldShape → Json → Prop
  | any (v : Json) : Admits .any v
  | text (s : String) : Admits (.shaped .text) (.string s)
  | list (texts : List String) : Admits (.shaped .list) (.array (texts.map .string))
  | map (fields : Json.Fields) : Admits (.shaped .map) (.object fields)

/-- How a value misses a shape: it is of another kind, or its first item that is no text is. -/
inductive Misses : FieldShape → Json → Json.Mismatch → Prop
  | text {v : Json} : (∀ s, v ≠ .string s) → Misses (.shaped .text) v ⟨v, .text⟩
  | list {v : Json} : (∀ items, v ≠ .array items) → Misses (.shaped .list) v ⟨v, .list⟩
  | item {before : List String} {v : Json} {after : List Json} : (∀ s, v ≠ .string s) →
      Misses (.shaped .list) (.array (before.map .string ++ v :: after)) ⟨v, .text⟩
  | map {v : Json} : (∀ fields, v ≠ .object fields) → Misses (.shaped .map) v ⟨v, .map⟩

theorem checkShape_eq_ok {v : Json} {shape : FieldShape} :
    checkShape v shape = .ok ⟨⟩ ↔ Admits shape v := by
  constructor
  · intro checked
    cases shape with
    | any => exact .any v
    | shaped shape =>
      cases shape with
      | text => cases v <;> first | exact .text _ | cases checked
      | map => cases v <;> first | exact .map _ | cases checked
      | list =>
        cases v with
        | array items =>
          cases read : Json.textsOf items with
          | ok texts => exact Json.textsOf_eq_ok.mp read ▸ .list texts
          | error mismatch => simp [checkShape, Json.asTexts, read, Except.map] at checked
        | _ => cases checked
  · rintro (_ | _ | texts | _)
    · rfl
    · rfl
    · have read : Json.textsOf (texts.map .string) = .ok texts := Json.textsOf_eq_ok.mpr rfl
      simp [checkShape, Json.asTexts, read, Except.map]
    · rfl

theorem checkShape_eq_error {v : Json} {shape : FieldShape} {fault : ArgumentFault} :
    checkShape v shape = .error fault ↔
      ∃ mismatch, Misses shape v mismatch ∧ fault = .wrongShape mismatch := by
  constructor
  · intro checked
    cases shape with
    | any => cases checked
    | shaped shape =>
      cases shape with
      | text => cases v <;> cases checked <;> exact ⟨_, .text (by simp), rfl⟩
      | map => cases v <;> cases checked <;> exact ⟨_, .map (by simp), rfl⟩
      | list =>
        cases v with
        | array items =>
          cases read : Json.textsOf items with
          | ok texts => simp [checkShape, Json.asTexts, read, Except.map] at checked
          | error mismatch =>
            obtain ⟨before, v, after, rfl, other, rfl⟩ := Json.textsOf_eq_error.mp read
            simp only [checkShape, Json.asTexts, read, Except.map, Except.error.injEq] at checked
            exact ⟨_, .item other, checked.symm⟩
        | _ => cases checked; exact ⟨_, .list (by simp), rfl⟩
  · rintro ⟨mismatch, misses, rfl⟩
    cases misses with
    | text other => cases v <;> simp_all [checkShape, Json.asText, Except.map]
    | list other => cases v <;> simp_all [checkShape, Json.asTexts, Except.map]
    | @item before v after other =>
      have read : Json.textsOf (before.map .string ++ v :: after) = .error ⟨v, .text⟩ :=
        Json.textsOf_eq_error.mpr ⟨before, v, after, rfl, other, rfl⟩
      simp [checkShape, Json.asTexts, read, Except.map]
    | map other => cases v <;> simp_all [checkShape, Json.asMap, Except.map]

/-! ## Entries -/

/-- The arguments that entries give, in the order in which they are written. -/
def argumentsIn (f : Family) (fields : Json.Fields) : List String :=
  (fields.map fun e => f.canonical e.1).filter fun name => Ordered.contains name f.fields

/-- Every argument is given in its shape and only once. -/
structure Proper (f : Family) (fields : Json.Fields) : Prop where
  shaped : ∀ e ∈ fields, ∀ shape, f.shape? e.1 = some shape → Admits shape e.2
  once : (argumentsIn f fields).Nodup

/-- What is wrong with an entry behind others: it gives an argument again, or not in its shape. -/
inductive BadEntry (f : Family) (earlier : Json.Fields) : String × Json → ArgumentFault → Prop
  | repeated {e : String × Json} : f.canonical e.1 ∈ argumentsIn f earlier →
      BadEntry f earlier e (.repeated (f.canonical e.1))
  | misshapen {e : String × Json} {shape : FieldShape} {mismatch : Json.Mismatch} :
      f.canonical e.1 ∉ argumentsIn f earlier → f.shape? e.1 = some shape →
      Misses shape e.2 mismatch → BadEntry f earlier e (.wrongShape mismatch)

variable {f : Family} {seen : List String} {fields : Json.Fields} {fault : ArgumentFault}

theorem argumentsIn_cons (e : String × Json) (fields : Json.Fields) :
    argumentsIn f (e :: fields) =
      (if (f.shape? e.1).isSome then [f.canonical e.1] else []) ++ argumentsIn f fields := by
  simp only [argumentsIn, List.map_cons, List.filter_cons, Ordered.contains, Family.shape?]
  split <;> simp_all

theorem argumentsIn_append (a b : Json.Fields) :
    argumentsIn f (a ++ b) = argumentsIn f a ++ argumentsIn f b := by
  simp [argumentsIn]

theorem shape?_of_mem_argumentsIn {key : String} (given : f.canonical key ∈ argumentsIn f fields) :
    ∃ shape, f.shape? key = some shape := by
  obtain ⟨-, known⟩ := List.mem_filter.mp given
  exact Option.isSome_iff_exists.mp known

theorem checkFields_cons (e : String × Json) (rest : Json.Fields) :
    checkFields f seen (e :: rest) =
      match f.shape? e.1 with
      | none => checkFields f seen rest
      | some shape =>
        if f.canonical e.1 ∈ seen then .error (.repeated (f.canonical e.1))
        else match checkShape e.2 shape with
          | .error fault => .error fault
          | .ok ⟨⟩ => checkFields f (f.canonical e.1 :: seen) rest := by
  obtain ⟨key, v⟩ := e
  rw [checkFields, Family.shape?]
  cases Ordered.get? (f.canonical key) f.fields with
  | none => rfl
  | some shape =>
    cases checked : checkShape v shape <;> simp only [List.contains_iff_mem, checked]

theorem checkFields_congr {seen' : List String} (same : ∀ name, name ∈ seen ↔ name ∈ seen') :
    checkFields f seen fields = checkFields f seen' fields := by
  induction fields generalizing seen seen' with
  | nil => rfl
  | cons e rest ih =>
    have behind : ∀ name, name ∈ f.canonical e.1 :: seen ↔ name ∈ f.canonical e.1 :: seen' := by
      simp [same]
    simp only [checkFields_cons, same, ih same, ih behind]

/-- The entries behind others are checked with the arguments that those give. -/
theorem checkFields_append (a b : Json.Fields) :
    checkFields f seen (a ++ b) =
      match checkFields f seen a with
      | .error fault => .error fault
      | .ok _ => checkFields f (argumentsIn f a ++ seen) b := by
  induction a generalizing seen with
  | nil => rfl
  | cons e a ih =>
    rw [List.cons_append, checkFields_cons, checkFields_cons, argumentsIn_cons]
    cases f.shape? e.1 with
    | none => exact ih
    | some shape =>
      by_cases given : f.canonical e.1 ∈ seen
      · simp [given]
      · simp only [given, if_false, Option.isSome_some, if_true]
        cases checkShape e.2 shape with
        | error fault => rfl
        | ok _ =>
          have order : ∀ name, name ∈ argumentsIn f a ++ f.canonical e.1 :: seen ↔
              name ∈ [f.canonical e.1] ++ argumentsIn f a ++ seen := by
            intro name
            simp only [List.mem_append, List.mem_cons, List.not_mem_nil, or_false]
            tauto
          simp only [ih, checkFields_congr order]

theorem admits_iff {shape : FieldShape} {v : Json} :
    Admits shape v ↔ ∀ mismatch, ¬ Misses shape v mismatch := by
  constructor
  · intro admits mismatch misses
    have wrong := checkShape_eq_error.mpr ⟨mismatch, misses, rfl⟩
    rw [checkShape_eq_ok.mpr admits] at wrong
    cases wrong
  · intro fits
    cases checked : checkShape v shape with
    | ok _ => exact checkShape_eq_ok.mp checked
    | error fault =>
      obtain ⟨mismatch, misses, -⟩ := checkShape_eq_error.mp checked
      exact absurd misses (fits mismatch)

/-- An entry behind others is refused exactly if it is bad. -/
theorem checkFields_singleton {earlier : Json.Fields} {e : String × Json} :
    checkFields f (argumentsIn f earlier) [e] = .error fault ↔ BadEntry f earlier e fault := by
  rw [checkFields_cons]
  cases known : f.shape? e.1 with
  | none =>
    refine iff_of_false (by simp [checkFields]) fun bad => ?_
    cases bad with
    | repeated given =>
      obtain ⟨shape, is⟩ := shape?_of_mem_argumentsIn given
      simp [known] at is
    | misshapen _ is _ => simp [known] at is
  | some shape =>
    by_cases given : f.canonical e.1 ∈ argumentsIn f earlier
    · simp only [given, if_true, Except.error.injEq]
      constructor
      · rintro rfl
        exact .repeated given
      · rintro (_ | ⟨new, -, -⟩)
        · rfl
        · exact absurd given new
    · simp only [given, if_false]
      constructor
      · intro refused
        cases checked : checkShape e.2 shape with
        | ok _ => simp [checked, checkFields] at refused
        | error wrong =>
          obtain ⟨mismatch, misses, rfl⟩ := checkShape_eq_error.mp checked
          simp only [checked, Except.error.injEq] at refused
          exact refused ▸ .misshapen given known misses
      · rintro (given' | ⟨-, is, misses⟩)
        · exact absurd given' given
        · obtain rfl := Option.some.inj (known.symm.trans is)
          rw [checkShape_eq_error.mpr ⟨_, misses, rfl⟩]

/-- Entries are proper exactly if none of them is bad behind those before it. -/
theorem proper_concat {e : String × Json} :
    Proper f (fields ++ [e]) ↔ Proper f fields ∧ ∀ fault, ¬ BadEntry f fields e fault := by
  constructor
  · rintro ⟨shaped, once⟩
    rw [argumentsIn_append, List.nodup_append'] at once
    refine ⟨⟨fun d member => shaped d (by simp [member]), once.1⟩, ?_⟩
    rintro fault (given | ⟨-, is, misses⟩)
    · obtain ⟨shape, is⟩ := shape?_of_mem_argumentsIn given
      exact once.2.2 given (by simp [argumentsIn_cons, is])
    · exact admits_iff.mp (shaped e (by simp) _ is) _ misses
  · rintro ⟨⟨shaped, once⟩, good⟩
    have new : (f.shape? e.1).isSome → f.canonical e.1 ∉ argumentsIn f fields :=
      fun _ given => good _ (.repeated given)
    constructor
    · intro d member shape is
      rcases List.mem_append.mp member with before | here
      · exact shaped d before shape is
      · obtain rfl := List.mem_singleton.mp here
        refine admits_iff.mpr fun mismatch misses => good _ (.misshapen (new ?_) is misses)
        simp [is]
    · rw [argumentsIn_append, List.nodup_append', argumentsIn_cons]
      refine ⟨once, ?_, ?_⟩
      · split <;> simp [argumentsIn]
      · intro name given given'
        by_cases known : (f.shape? e.1).isSome
        · simp only [known, if_true, argumentsIn, List.map_nil, List.filter_nil, List.append_nil,
            List.mem_singleton] at given'
          exact new known (given' ▸ given)
        · simp [known, argumentsIn] at given'

theorem checkFields_eq_ok : checkFields f [] fields = .ok ⟨⟩ ↔ Proper f fields := by
  induction fields using List.reverseRecOn with
  | nil => exact iff_of_true rfl ⟨by simp, by simp [argumentsIn]⟩
  | append_singleton init e ih =>
    rw [checkFields_append, proper_concat, ← ih, List.append_nil]
    cases checkFields f [] init with
    | error fault => simp
    | ok _ =>
      simp only [true_and, ← checkFields_singleton]
      cases checkFields f (argumentsIn f init) [e] <;> simp

/-- Entries are refused for the first bad one. -/
theorem checkFields_eq_error : checkFields f [] fields = .error fault ↔
    ∃ before e after, fields = before ++ e :: after ∧ Proper f before ∧
      BadEntry f before e fault := by
  constructor
  · intro refused
    induction fields using List.reverseRecOn with
    | nil => cases refused
    | append_singleton init e ih =>
      rw [checkFields_append, List.append_nil] at refused
      cases checked : checkFields f [] init with
      | error wrong =>
        simp only [checked, Except.error.injEq] at refused
        obtain ⟨before, d, after, rfl, rest⟩ := ih (refused ▸ checked)
        exact ⟨before, d, after ++ [e], by simp, rest⟩
      | ok _ =>
        simp only [checked] at refused
        exact ⟨init, e, [], rfl, checkFields_eq_ok.mp checked, checkFields_singleton.mp refused⟩
  · rintro ⟨before, e, after, rfl, proper, bad⟩
    rw [show before ++ e :: after = before ++ [e] ++ after by simp, checkFields_append,
      checkFields_append, checkFields_eq_ok.mpr proper]
    simp only [List.append_nil, checkFields_singleton.mpr bad]

end Import

end SchemaLoom
