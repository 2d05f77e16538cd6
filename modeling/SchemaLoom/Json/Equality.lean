import SchemaLoom.Json.Basic

/-!
# Equality of documents

Two documents are equal if they have the same shape, with the same leaves and the same keys in the
same order. This can be computed.
-/

namespace SchemaLoom.Json

mutual

/-- Whether two documents are equal. -/
def equal : Json → Json → Bool
  | .null, .null => true
  | .bool a, .bool b => a == b
  | .number a, .number b => a == b
  | .string a, .string b => a == b
  | .array items, .array items' => equalItems items items'
  | .object fields, .object fields' => equalFields fields fields'
  | _, _ => false

def equalItems : List Json → List Json → Bool
  | [], [] => true
  | v :: items, v' :: items' => equal v v' && equalItems items items'
  | _, _ => false

def equalFields : List (String × Json) → List (String × Json) → Bool
  | [], [] => true
  | (k, v) :: fields, (k', v') :: fields' => k == k' && equal v v' && equalFields fields fields'
  | _, _ => false

end

mutual

theorem equal_iff : ∀ {v v' : Json}, equal v v' = true ↔ v = v'
  | .null, v' | .bool a, v' | .number a, v' | .string a, v' => by cases v' <;> simp [equal]
  | .array items, v' => by cases v' <;> simp [equal, equalItems_iff]
  | .object fields, v' => by cases v' <;> simp [equal, equalFields_iff]

theorem equalItems_iff :
    ∀ {items items' : List Json}, equalItems items items' = true ↔ items = items'
  | [], items' => by cases items' <;> simp [equalItems]
  | v :: items, items' => by cases items' <;> simp [equalItems, equal_iff, equalItems_iff]

theorem equalFields_iff : ∀ {fields fields' : List (String × Json)},
    equalFields fields fields' = true ↔ fields = fields'
  | [], fields' => by cases fields' <;> simp [equalFields]
  | (k, v) :: fields, fields' => by
    cases fields' <;> simp [equalFields, equal_iff, equalFields_iff, Prod.ext_iff]

end

instance : DecidableEq Json := fun _ _ => decidable_of_iff _ equal_iff

end SchemaLoom.Json
