import SchemaLoom.Proofs.Json.Rewriting
import SchemaLoom.Proofs.Resolution

/-!
# Documents without directives

The entries of directives leave a document in two passes. Permissions for missing references stay
until the references are resolved; all others go before. Together the passes remove every entry
under a key that is shaped like a directive, at every depth, and keep the rest in its order.
-/

namespace SchemaLoom

namespace Ordered

variable {α : Type} {keep keep' : String → Bool}

/-- The entries whose names satisfy a condition. -/
def only (keep : String → Bool) (table : Ordered α) : Ordered α :=
  table.filter fun entry => keep entry.1

@[simp] theorem only_nil : only keep ([] : Ordered α) = [] := rfl

theorem only_cons (name : String) (value : α) (table : Ordered α) :
    only keep ((name, value) :: table) =
      if keep name then (name, value) :: only keep table else only keep table := by
  simp [only, List.filter_cons]

theorem only_only (table : Ordered α) :
    only keep (only keep' table) = only (fun name => keep name && keep' name) table := by
  simp [only, List.filter_filter]

theorem mem_only {entry : String × α} {table : Ordered α} :
    entry ∈ only keep table ↔ entry ∈ table ∧ keep entry.1 = true := by
  simp [only]

end Ordered

open Ordered (only)

namespace Json

variable {value : String → Json} {keep keep' : String → Bool} {gather : Fields → Fields}

theorem rewriteFields_only (fields : Fields) :
    rewriteFields value id gather (only keep fields) =
      only keep (rewriteFields value id gather fields) := by
  induction fields with
  | nil => rfl
  | cons entry fields ih =>
    obtain ⟨key, v⟩ := entry
    by_cases stays : keep key = true
    · simp [rewriteFields, Ordered.only_cons, stays, ih]
    · simp [rewriteFields, Ordered.only_cons, stays, ih]

mutual

theorem rewrite_only : (v : Json) →
    rewrite value id (only keep) (rewrite .string id (only keep') v) =
      rewrite value id (only fun key => keep key && keep' key) v
  | .null | .bool _ | .number _ | .string _ => by simp [rewrite]
  | .array items => by simp [rewrite, rewriteItems_only items]
  | .object fields => by
    simp [rewrite, rewriteFields_only, rewriteFields_rewriteFields_only fields, Ordered.only_only]

theorem rewriteItems_only : (items : List Json) →
    rewriteItems value id (only keep) (rewriteItems .string id (only keep') items) =
      rewriteItems value id (only fun key => keep key && keep' key) items
  | [] => rfl
  | v :: vs => by simp [rewriteItems, rewrite_only v, rewriteItems_only vs]

theorem rewriteFields_rewriteFields_only : (fields : List (String × Json)) →
    rewriteFields value id (only keep) (rewriteFields .string id (only keep') fields) =
      rewriteFields value id (only fun key => keep key && keep' key) fields
  | [] => rfl
  | (key, v) :: rest => by
    simp [rewriteFields, rewrite_only v, rewriteFields_rewriteFields_only rest]

end

/-! ## The keys of a document -/

/-- Every key of every object, at any depth, satisfies `p`. -/
inductive Keys (p : String → Prop) : Json → Prop where
  | null : Keys p .null
  | bool (b : Bool) : Keys p (.bool b)
  | number (n : Number) : Keys p (.number n)
  | string (s : String) : Keys p (.string s)
  | array {items : List Json} : (∀ v ∈ items, Keys p v) → Keys p (.array items)
  | object {fields : Fields} : (∀ entry ∈ fields, p entry.1) →
      (∀ entry ∈ fields, Keys p entry.2) → Keys p (.object fields)

section

variable {p : String → Prop}

mutual

theorem keys_rewrite_only (texts : ∀ s, Keys p (value s)) (kept : ∀ key, keep key = true → p key) :
    (v : Json) → (rewrite value id (only keep) v).Keys p
  | .null => .null
  | .bool b => .bool b
  | .number n => .number n
  | .string s => by simpa [rewrite] using texts s
  | .array items => by
    rw [rewrite]
    exact .array (keys_rewriteItems_only texts kept items)
  | .object fields => by
    rw [rewrite]
    apply Keys.object
    · intro entry member
      exact kept _ (Ordered.mem_only.mp member).2
    · intro entry member
      exact keys_rewriteFields_only texts kept fields entry (Ordered.mem_only.mp member).1

theorem keys_rewriteItems_only (texts : ∀ s, Keys p (value s))
    (kept : ∀ key, keep key = true → p key) : (items : List Json) →
    ∀ v ∈ rewriteItems value id (only keep) items, v.Keys p
  | [] => by simp [rewriteItems]
  | v :: vs => by
    simp only [rewriteItems, List.mem_cons, forall_eq_or_imp]
    exact ⟨keys_rewrite_only texts kept v, keys_rewriteItems_only texts kept vs⟩

theorem keys_rewriteFields_only (texts : ∀ s, Keys p (value s))
    (kept : ∀ key, keep key = true → p key) : (fields : List (String × Json)) →
    ∀ entry ∈ rewriteFields value id (only keep) fields, entry.2.Keys p
  | [] => by simp [rewriteFields]
  | (key, v) :: rest => by
    simp only [rewriteFields, List.mem_cons, forall_eq_or_imp]
    exact ⟨keys_rewrite_only texts kept v, keys_rewriteFields_only texts kept rest⟩

end

end

/-! ## The two passes -/

mutual

theorem stripDirectives_eq : (v : Json) →
    v.stripDirectives = rewrite .string id (only staysInDocument) v
  | .null | .bool _ | .number _ | .string _ => by simp [stripDirectives, rewrite]
  | .array items => by simp [stripDirectives, rewrite, stripItems_eq items]
  | .object fields => by simp [stripDirectives, rewrite, stripFields_eq fields]

theorem stripItems_eq : (items : List Json) →
    stripItems items = rewriteItems .string id (only staysInDocument) items
  | [] => rfl
  | v :: vs => by simp [stripItems, rewriteItems, stripDirectives_eq v, stripItems_eq vs]

theorem stripFields_eq : (fields : List (String × Json)) →
    stripFields fields =
      only staysInDocument (rewriteFields .string id (only staysInDocument) fields)
  | [] => rfl
  | (key, v) :: rest => by
    simp [stripFields, rewriteFields, Ordered.only_cons, stripDirectives_eq v, stripFields_eq rest]

end

end Json

namespace Resolver

variable (r : Resolver)

/-- Whether an entry stays when references are resolved. -/
def staysResolved (key : String) : Bool := !(key == Directive.noRefCheckKey)

/-- The text of a string value with its references resolved, as a value. -/
def resolved (s : String) : Json := .string (r.resolveText s)

mutual

theorem resolveNode_eq : (v : Json) →
    r.resolveNode v = v.rewrite r.resolved id (only staysResolved)
  | .null | .bool _ | .number _ => by simp [resolveNode, Json.rewrite]
  | .string s => by simp [resolveNode, Json.rewrite, resolved]
  | .array items => by simp [resolveNode, Json.rewrite, resolveItems_eq items]
  | .object fields => by simp [resolveNode, Json.rewrite, resolveFields_eq fields]

theorem resolveItems_eq : (items : List Json) →
    r.resolveItems items = Json.rewriteItems r.resolved id (only staysResolved) items
  | [] => rfl
  | v :: vs => by simp [resolveItems, Json.rewriteItems, resolveNode_eq v, resolveItems_eq vs]

theorem resolveFields_eq : (fields : List (String × Json)) →
    r.resolveFields fields =
      only staysResolved (Json.rewriteFields r.resolved id (only staysResolved) fields)
  | [] => rfl
  | (key, v) :: rest => by
    by_cases permission : key = Directive.noRefCheckKey
    · simp [resolveFields, Json.rewriteFields, Ordered.only_cons, staysResolved, permission,
        resolveFields_eq rest]
    · simp [resolveFields, Json.rewriteFields, Ordered.only_cons, staysResolved, permission,
        resolveNode_eq v, resolveFields_eq rest]

end

theorem staysResolved_and_staysInDocument (key : String) :
    (staysResolved key && Json.staysInDocument key) = !Directive.looksLike key := by
  unfold staysResolved Json.staysInDocument
  cases permission : key == Directive.noRefCheckKey with
  | true =>
    obtain rfl := eq_of_beq permission
    decide
  | false => simp

/-- A document that is stripped and resolved has lost the entries of all its directives, and its
strings are resolved. -/
theorem resolveNode_stripDirectives (v : Json) :
    r.resolveNode v.stripDirectives =
      v.rewrite r.resolved id (only fun key => !Directive.looksLike key) := by
  rw [resolveNode_eq, Json.stripDirectives_eq, Json.rewrite_only]
  simp only [staysResolved_and_staysInDocument]

end Resolver

end SchemaLoom
