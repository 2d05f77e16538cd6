import SchemaLoom.Json.Basic
import SchemaLoom.Proofs.Ordered

/-!
# Documents whose objects name every entry once

Every document that is read from a text is of this kind. Only in such a document does a location
name one value.
-/

namespace SchemaLoom.Json

inductive DistinctKeys : Json → Prop where
  | null : DistinctKeys .null
  | bool (b : Bool) : DistinctKeys (.bool b)
  | number (n : Number) : DistinctKeys (.number n)
  | string (s : String) : DistinctKeys (.string s)
  | array {items : List Json} : (∀ v ∈ items, DistinctKeys v) → DistinctKeys (.array items)
  | object {fields : Fields} : (Ordered.names fields).Nodup →
      (∀ entry ∈ fields, DistinctKeys entry.2) → DistinctKeys (.object fields)

namespace DistinctKeys

theorem item {items : List Json} (h : (Json.array items).DistinctKeys) {v : Json}
    (member : v ∈ items) : v.DistinctKeys := by
  cases h with
  | array all => exact all v member

theorem nodup {fields : Fields} (h : (Json.object fields).DistinctKeys) :
    (Ordered.names fields).Nodup := by
  cases h with
  | object nodup _ => exact nodup

theorem entry {fields : Fields} (h : (Json.object fields).DistinctKeys) {e : String × Json}
    (member : e ∈ fields) : e.2.DistinctKeys := by
  cases h with
  | object _ all => exact all e member

theorem put {fields : Fields} (h : (Json.object fields).DistinctKeys) (key : String) {v : Json}
    (distinct : v.DistinctKeys) : (Json.object (Ordered.put key v fields)).DistinctKeys := by
  apply DistinctKeys.object (Ordered.nodup_names_put v h.nodup)
  intro e member
  rcases Ordered.mem_put member with same | old
  · exact same ▸ distinct
  · exact h.entry old

theorem putAll {fields : Fields} (h : (Json.object fields).DistinctKeys) {more : Fields}
    (distinct : ∀ e ∈ more, e.2.DistinctKeys) :
    (Json.object (Ordered.putAll fields more)).DistinctKeys := by
  induction more generalizing fields with
  | nil => exact h
  | cons e more ih =>
    exact ih (h.put e.1 (distinct e List.mem_cons_self))
      fun e member => distinct e (List.mem_cons_of_mem _ member)

theorem empty : (Json.object []).DistinctKeys := .object List.nodup_nil (by simp)

theorem ofList {entries : List (String × Json)} (distinct : ∀ e ∈ entries, e.2.DistinctKeys) :
    (Json.object (Ordered.ofList entries)).DistinctKeys := empty.putAll distinct

end DistinctKeys

mutual

/-- The check for distinct keys. -/
def hasDistinctKeys : Json → Bool
  | .array items => itemsHaveDistinctKeys items
  | .object fields => decide (Ordered.names fields).Nodup && fieldsHaveDistinctKeys fields
  | _ => true

def itemsHaveDistinctKeys : List Json → Bool
  | [] => true
  | v :: vs => hasDistinctKeys v && itemsHaveDistinctKeys vs

def fieldsHaveDistinctKeys : List (String × Json) → Bool
  | [] => true
  | (_, v) :: rest => hasDistinctKeys v && fieldsHaveDistinctKeys rest

end

mutual

theorem distinctKeys_of_check : (v : Json) → v.hasDistinctKeys = true → v.DistinctKeys
  | .null, _ => .null
  | .bool b, _ => .bool b
  | .number n, _ => .number n
  | .string s, _ => .string s
  | .array items, h => .array (itemsDistinct_of_check items (by simpa [hasDistinctKeys] using h))
  | .object fields, h => by
    simp only [hasDistinctKeys, Bool.and_eq_true, decide_eq_true_eq] at h
    exact .object h.1 (fieldsDistinct_of_check fields h.2)

theorem itemsDistinct_of_check : (items : List Json) → itemsHaveDistinctKeys items = true →
    ∀ v ∈ items, v.DistinctKeys
  | [], _ => by simp
  | v :: vs, h => by
    simp only [itemsHaveDistinctKeys, Bool.and_eq_true] at h
    exact List.forall_mem_cons.mpr ⟨distinctKeys_of_check v h.1, itemsDistinct_of_check vs h.2⟩

theorem fieldsDistinct_of_check : (fields : List (String × Json)) →
    fieldsHaveDistinctKeys fields = true → ∀ entry ∈ fields, entry.2.DistinctKeys
  | [], _ => by simp
  | (_, v) :: rest, h => by
    simp only [fieldsHaveDistinctKeys, Bool.and_eq_true] at h
    exact List.forall_mem_cons.mpr ⟨distinctKeys_of_check v h.1, fieldsDistinct_of_check rest h.2⟩

end

theorem check_of_distinctKeys {v : Json} (h : v.DistinctKeys) : v.hasDistinctKeys = true := by
  induction h with
  | null | bool _ | number _ | string _ => simp [hasDistinctKeys]
  | @array items _ ih =>
    rw [hasDistinctKeys]
    induction items with
    | nil => rfl
    | cons v vs more =>
      rename_i all
      simp only [List.forall_mem_cons] at all ih
      rw [itemsHaveDistinctKeys, ih.1, more all.2 ih.2]
      rfl
  | @object fields nodup _ ih =>
    rw [hasDistinctKeys, decide_eq_true nodup, Bool.true_and]
    clear nodup
    induction fields with
    | nil => rfl
    | cons entry rest more =>
      rename_i all
      simp only [List.forall_mem_cons] at all ih
      rw [fieldsHaveDistinctKeys, ih.1, more all.2 ih.2]
      rfl

instance (v : Json) : Decidable v.DistinctKeys :=
  decidable_of_iff (v.hasDistinctKeys = true) ⟨distinctKeys_of_check v, check_of_distinctKeys⟩

end SchemaLoom.Json
