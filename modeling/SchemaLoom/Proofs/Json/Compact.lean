import SchemaLoom.Json.Writer
import SchemaLoom.Proofs.Json.Rewriting

/-!
# Compact text

What stands behind the first item of an array or the first entry of an object, and what may follow a
value.
-/

namespace SchemaLoom.Json

/-- The compact text of an array's items behind the first one. -/
def afterItem : List Json → List Char
  | [] => []
  | v :: vs => ',' :: compactItems (v :: vs)

/-- The compact text of an object's entries behind the first one. -/
def afterField : List (String × Json) → List Char
  | [] => []
  | e :: rest => ',' :: compactFields (e :: rest)

theorem compactItems_cons (v : Json) (vs : List Json) :
    compactItems (v :: vs) = compactChars v ++ afterItem vs := by
  cases vs <;> simp [compactItems, afterItem]

theorem compactFields_cons (k : String) (v : Json) (rest : List (String × Json)) :
    compactFields ((k, v) :: rest) = quoted k ++ ':' :: (compactChars v ++ afterField rest) := by
  cases rest <;> simp [compactFields, afterField]

/-! ## What follows a value -/

/-- The text behind a value inside a compact text: nothing, a comma or a closing bracket. -/
def Ends (rest : List Char) : Prop := ∀ c ∈ rest.head?, c = ',' ∨ c = ']' ∨ c = '}'

theorem ends_nil : Ends [] := by simp [Ends]

theorem Ends.cases {rest : List Char} (h : Ends rest) :
    rest = [] ∨ ∃ r, rest = ',' :: r ∨ rest = ']' :: r ∨ rest = '}' :: r := by
  cases rest with
  | nil => exact .inl rfl
  | cons c r => exact .inr ⟨r, by simpa [Ends] using h⟩

theorem ends_afterItem (vs : List Json) (rest : List Char) :
    Ends (afterItem vs ++ ']' :: rest) := by
  cases vs <;> simp [afterItem, Ends]

theorem ends_afterField (fields : List (String × Json)) (rest : List Char) :
    Ends (afterField fields ++ '}' :: rest) := by
  cases fields <;> simp [afterField, Ends]

end SchemaLoom.Json
