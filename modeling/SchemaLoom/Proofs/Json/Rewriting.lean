import SchemaLoom.Proofs.DistinctKeys

/-!
# Documents rewritten text by text

`rewrite` gives a document to every string value, a text to every key, and gathers the entries of
every object. Two rewritings one after the other are one, and a rewriting that keeps every text of a
document keeps the document.

Gathering with `Ordered.ofList` puts the entries one after the other, so that a repeated key keeps
its first place and its last value; that is how a reader builds objects.
-/

namespace SchemaLoom

namespace Ordered

variable {α : Type}

theorem put_of_not_mem {name : String} (value : α) {table : Ordered α} (h : name ∉ names table) :
    put name value table = table ++ [(name, value)] := by
  induction table with
  | nil => rfl
  | cons entry rest ih =>
    obtain ⟨n, v⟩ := entry
    simp only [names_cons, List.mem_cons, not_or] at h
    simp [put, Ne.symm h.1, ih h.2]

theorem putAll_of_disjoint {table more : Ordered α} (h : (names (table ++ more)).Nodup) :
    putAll table more = table ++ more := by
  induction more generalizing table with
  | nil => simp [putAll]
  | cons entry more ih =>
    obtain ⟨n, v⟩ := entry
    have absent : n ∉ names table := by
      simp only [names_append, names_cons] at h
      exact fun member => (List.nodup_append'.1 h).2.2 member List.mem_cons_self
    have step : putAll table ((n, v) :: more) = putAll (table ++ [(n, v)]) more := by
      simp [putAll, put_of_not_mem v absent]
    rw [step, ih (by simpa using h)]
    simp

theorem ofList_of_nodup {entries : Ordered α} (h : (names entries).Nodup) :
    ofList entries = entries := by
  have all : putAll [] entries = [] ++ entries := putAll_of_disjoint (by simpa using h)
  simpa [ofList] using all

end Ordered

namespace Json

section Rewriting

variable (value : String → Json) (key : String → String) (gather : Fields → Fields)

mutual

/-- The document with every string value and every key replaced and every object gathered. -/
def rewrite : Json → Json
  | .string s => value s
  | .array items => .array (rewriteItems items)
  | .object fields => .object (gather (rewriteFields fields))
  | v => v

def rewriteItems : List Json → List Json
  | [] => []
  | v :: vs => rewrite v :: rewriteItems vs

def rewriteFields : List (String × Json) → List (String × Json)
  | [] => []
  | (k, v) :: rest => (key k, rewrite v) :: rewriteFields rest

end

end Rewriting

/-- The document with the entries of every object gathered under distinct keys. -/
abbrev merged : Json → Json := rewrite .string id Ordered.ofList

section

variable {value value' : String → Json} {key key' : String → String} {gather : Fields → Fields}

mutual

theorem rewrite_rewrite : (v : Json) →
    rewrite value key gather (rewrite value' key' id v) =
      rewrite (fun s => rewrite value key gather (value' s)) (key ∘ key') gather v
  | .null | .bool _ | .number _ | .string _ => by simp [rewrite]
  | .array items => by simp [rewrite, rewriteItems_rewriteItems items]
  | .object fields => by simp [rewrite, rewriteFields_rewriteFields fields]

theorem rewriteItems_rewriteItems : (items : List Json) →
    rewriteItems value key gather (rewriteItems value' key' id items) =
      rewriteItems (fun s => rewrite value key gather (value' s)) (key ∘ key') gather items
  | [] => rfl
  | v :: vs => by simp [rewriteItems, rewrite_rewrite v, rewriteItems_rewriteItems vs]

theorem rewriteFields_rewriteFields : (fields : List (String × Json)) →
    rewriteFields value key gather (rewriteFields value' key' id fields) =
      rewriteFields (fun s => rewrite value key gather (value' s)) (key ∘ key') gather fields
  | [] => rfl
  | (k, v) :: rest => by
    simp [rewriteFields, rewrite_rewrite v, rewriteFields_rewriteFields rest]

end

end

/-! ## Documents all of whose texts satisfy a condition -/

/-- Every string value and every key satisfies `p`. -/
inductive Texts (p : String → Prop) : Json → Prop where
  | null : Texts p .null
  | bool (b : Bool) : Texts p (.bool b)
  | number (n : Number) : Texts p (.number n)
  | string {s : String} : p s → Texts p (.string s)
  | array {items : List Json} : (∀ v ∈ items, Texts p v) → Texts p (.array items)
  | object {fields : Fields} : (∀ e ∈ fields, p e.1) → (∀ e ∈ fields, Texts p e.2) →
      Texts p (.object fields)

section

variable {p : String → Prop} {value : String → Json} {key : String → String}

mutual

theorem rewrite_eq_self (keeps : ∀ s, p s → value s = .string s ∧ key s = s) :
    (v : Json) → Texts p v → rewrite value key id v = v
  | .null, _ | .bool _, _ | .number _, _ => by simp [rewrite]
  | .string s, .string h => by simp [rewrite, (keeps s h).1]
  | .array items, .array h => by simp [rewrite, rewriteItems_eq_self keeps items h]
  | .object fields, .object keys h => by simp [rewrite, rewriteFields_eq_self keeps fields keys h]

theorem rewriteItems_eq_self (keeps : ∀ s, p s → value s = .string s ∧ key s = s) :
    (items : List Json) → (∀ v ∈ items, Texts p v) → rewriteItems value key id items = items
  | [], _ => rfl
  | v :: vs, h => by
    simp [rewriteItems, rewrite_eq_self keeps v (h v List.mem_cons_self),
      rewriteItems_eq_self keeps vs fun w member => h w (List.mem_cons_of_mem _ member)]

theorem rewriteFields_eq_self (keeps : ∀ s, p s → value s = .string s ∧ key s = s) :
    (fields : List (String × Json)) → (∀ e ∈ fields, p e.1) → (∀ e ∈ fields, Texts p e.2) →
      rewriteFields value key id fields = fields
  | [], _, _ => rfl
  | (k, v) :: rest, keys, h => by
    simp [rewriteFields, (keeps k (keys (k, v) List.mem_cons_self)).2,
      rewrite_eq_self keeps v (h (k, v) List.mem_cons_self),
      rewriteFields_eq_self keeps rest (fun e member => keys e (List.mem_cons_of_mem _ member))
        fun e member => h e (List.mem_cons_of_mem _ member)]

end

end

mutual

theorem rewrite_string : (v : Json) → rewrite .string id id v = v
  | .null | .bool _ | .number _ | .string _ => by simp [rewrite]
  | .array items => by simp [rewrite, rewriteItems_string items]
  | .object fields => by simp [rewrite, rewriteFields_string fields]

theorem rewriteItems_string : (items : List Json) → rewriteItems .string id id items = items
  | [] => rfl
  | v :: vs => by simp [rewriteItems, rewrite_string v, rewriteItems_string vs]

theorem rewriteFields_string :
    (fields : List (String × Json)) → rewriteFields .string id id fields = fields
  | [] => rfl
  | (k, v) :: rest => by simp [rewriteFields, rewrite_string v, rewriteFields_string rest]

end

mutual

theorem merged_eq_self : (v : Json) → v.DistinctKeys → v.merged = v
  | .null, _ | .bool _, _ | .number _, _ | .string _, _ => by simp [rewrite]
  | .array items, h => by simp [rewrite, mergedItems_eq_self items fun v => h.item]
  | .object fields, h => by
    simp [rewrite, mergedFields_eq_self fields fun e => h.entry, Ordered.ofList_of_nodup h.nodup]

theorem mergedItems_eq_self : (items : List Json) → (∀ v ∈ items, v.DistinctKeys) →
    rewriteItems .string id Ordered.ofList items = items
  | [], _ => rfl
  | v :: vs, h => by
    have first : v.merged = v := merged_eq_self v (h v List.mem_cons_self)
    simp [rewriteItems, first,
      mergedItems_eq_self vs fun w member => h w (List.mem_cons_of_mem _ member)]

theorem mergedFields_eq_self : (fields : List (String × Json)) →
    (∀ e ∈ fields, e.2.DistinctKeys) → rewriteFields .string id Ordered.ofList fields = fields
  | [], _ => rfl
  | (k, v) :: rest, h => by
    have first : v.merged = v := merged_eq_self v (h (k, v) List.mem_cons_self)
    simp [rewriteFields, first,
      mergedFields_eq_self rest fun e member => h e (List.mem_cons_of_mem _ member)]

end

/-! ## Nesting -/

mutual

/-- How many containers stand inside each other. -/
def nesting : Json → Nat
  | .array items => itemsNesting items + 1
  | .object fields => fieldsNesting fields + 1
  | _ => 0

def itemsNesting : List Json → Nat
  | [] => 0
  | v :: vs => max v.nesting (itemsNesting vs)

def fieldsNesting : List (String × Json) → Nat
  | [] => 0
  | (_, v) :: rest => max v.nesting (fieldsNesting rest)

end

/-! ## Numbers -/

/-- Every number is an integer of 64 bits, signed or unsigned. -/
inductive Integral : Json → Prop where
  | null : Integral .null
  | bool (b : Bool) : Integral (.bool b)
  | number {n : Int} : -9223372036854775808 ≤ n → n < 18446744073709551616 →
    Integral (.number (.int n))
  | string (s : String) : Integral (.string s)
  | array {items : List Json} : (∀ v ∈ items, Integral v) → Integral (.array items)
  | object {fields : Fields} : (∀ e ∈ fields, Integral e.2) → Integral (.object fields)

section

variable {value : String → Json} {key : String → String}

mutual

theorem Integral.rewrite (integral : ∀ s, Integral (value s)) :
    (v : Json) → Integral v → Integral (Json.rewrite value key id v)
  | .null, _ => .null
  | .bool b, _ => .bool b
  | .number _, h => by simpa [Json.rewrite] using h
  | .string s, _ => by simpa [Json.rewrite] using integral s
  | .array items, .array h => by
    rw [Json.rewrite]
    exact .array (Integral.rewriteItems integral items h)
  | .object fields, .object h => by
    rw [Json.rewrite]
    exact .object (Integral.rewriteFields integral fields h)

theorem Integral.rewriteItems (integral : ∀ s, Integral (value s)) :
    (items : List Json) → (∀ v ∈ items, Integral v) →
      ∀ v ∈ Json.rewriteItems value key id items, Integral v
  | [], _ => by simp [Json.rewriteItems]
  | v :: vs, h => by
    simp only [Json.rewriteItems, List.mem_cons, forall_eq_or_imp]
    exact ⟨Integral.rewrite integral v (h v List.mem_cons_self),
      Integral.rewriteItems integral vs fun w member => h w (List.mem_cons_of_mem _ member)⟩

theorem Integral.rewriteFields (integral : ∀ s, Integral (value s)) :
    (fields : List (String × Json)) → (∀ e ∈ fields, Integral e.2) →
      ∀ e ∈ Json.rewriteFields value key id fields, Integral e.2
  | [], _ => by simp [Json.rewriteFields]
  | (k, v) :: rest, h => by
    simp only [Json.rewriteFields, List.mem_cons, forall_eq_or_imp]
    exact ⟨Integral.rewrite integral v (h (k, v) List.mem_cons_self),
      Integral.rewriteFields integral rest fun e member => h e (List.mem_cons_of_mem _ member)⟩

end

end

end Json

end SchemaLoom
