import Mathlib.Data.List.Flatten
import SchemaLoom.Proofs.Json.Order
import SchemaLoom.Proofs.Reference.Integrity

/-!
# The missing references of a document

A reference is missing when there is no template at the path that it names. The walk that resolves a
document comes to the missing references in the order of the document, which is the order of the
strings and in one string the order of its pieces. It does not look at the values of permissions.
-/

namespace SchemaLoom.Resolver

open Reference

/-- A reference where it stands: the location of its string and its position among the pieces of the
string. -/
structure Token where
  place : Location
  position : Nat
  ref : Reference

namespace Token

/-- The token as it is seen from around the node that holds it. -/
def below (s : Segment) (t : Token) : Token := { t with place := s :: t.place }

/-- The order in which the tokens of a document are read. -/
def Precedes (document : Json) (t u : Token) : Prop :=
  document.Before t.place u.place ∨ t.place = u.place ∧ t.position < u.position

variable {v w : Json} {s : Segment} {t u : Token}

theorem precedes_below (child : v.child? s = some w) :
    (t.below s).Precedes v (u.below s) ↔ t.Precedes w u := by
  simp [Precedes, below, Json.before_cons_iff child]

theorem Precedes.irrefl : ¬ t.Precedes v t := by
  rintro (before | ⟨-, before⟩)
  · exact before.irrefl
  · exact Nat.lt_irrefl _ before

theorem Precedes.asymm (h : t.Precedes v u) : ¬ u.Precedes v t := by
  rcases h with before | ⟨same, before⟩
  · rintro (after | ⟨same, -⟩)
    · exact before.asymm after
    · exact (same ▸ before).irrefl
  · rintro (after | ⟨-, after⟩)
    · exact (same ▸ after).irrefl
    · omega

end Token

variable (r : Resolver)

/-- There is no template at the path that the reference names. If it is only a fragment it names
none. -/
structure Lacks (ref : Reference) : Prop where
  named : ref.splitFragment.1 = [] → ref.splitFragment.2 = none
  notFound : r.files.findSource? r.layout
    (relativePath ref.nameSpace ref.splitFragment.1) = none

/-- The token stands in the document, and its template is missing. What is the value of a permission
is not read. -/
structure IsMissing (document : Json) (t : Token) : Prop where
  stands : ∃ text, document.at? t.place = some (.string text) ∧
    (pieces text.toList)[t.position]? = some (.reference t.ref)
  read : Segment.key Directive.noRefCheckKey ∉ t.place
  lacks : r.Lacks t.ref

/-- The missing references of a node that is a text. -/
def missingHere : Json → List Token
  | .string text => (pieces text.toList).zipIdx.filterMap fun e => match e.1 with
    | .char _ => none
    | .reference ref => if (r.replacement? ref).isNone then some ⟨[], e.2, ref⟩ else none
  | _ => []

mutual

/-- The missing references of a node in the order in which they are read. -/
def missing : Json → List Token
  | .array items => missingItems 0 items
  | .object fields => missingFields fields
  | v => r.missingHere v

def missingItems (i : Nat) : List Json → List Token
  | [] => []
  | v :: vs => (missing v).map (.below (.index i)) ++ missingItems (i + 1) vs

def missingFields : List (String × Json) → List Token
  | [] => []
  | (k, v) :: rest =>
    if k = Directive.noRefCheckKey then missingFields rest
    else (missing v).map (.below (.key k)) ++ missingFields rest

end

/-- The children of a node that are looked at. -/
def readable (v : Json) : List (Segment × Json) :=
  v.children.filter fun c => c.1 ≠ .key Directive.noRefCheckKey

/-- The missing references in the children of a node. -/
def missingBelow (v : Json) : List Token :=
  (readable v).flatMap fun c => (r.missing c.2).map (.below c.1)

variable {r} {v u : Json} {s : Segment} {t : Token}

theorem mem_readable (distinct : v.DistinctKeys) :
    (s, u) ∈ readable v ↔ v.child? s = some u ∧ s ≠ .key Directive.noRefCheckKey := by
  simp [readable, Json.mem_children distinct]

/-! ## The walk goes over the children -/

theorem readable_array (items : List Json) :
    readable (.array items) = items.zipIdx.map fun e => (.index e.2, e.1) := by
  refine List.filter_eq_self.mpr fun c member => ?_
  obtain ⟨e, -, rfl⟩ := List.mem_map.mp member
  simp

theorem readable_object (fields : Json.Fields) :
    readable (.object fields) =
      (fields.filter fun e => e.1 ≠ Directive.noRefCheckKey).map fun e => (.key e.1, e.2) := by
  simp [readable, Json.children, List.filter_map, Function.comp_def]

theorem missingItems_eq (i : Nat) (items : List Json) :
    r.missingItems i items =
      ((items.zipIdx i).map fun e => (Segment.index e.2, e.1)).flatMap fun c =>
        (r.missing c.2).map (.below c.1) := by
  induction items generalizing i with
  | nil => rfl
  | cons v items ih => simp [missingItems, List.zipIdx_cons, ih]

theorem missingFields_eq (fields : Json.Fields) :
    r.missingFields fields =
      ((fields.filter fun e => e.1 ≠ Directive.noRefCheckKey).map fun e =>
        (Segment.key e.1, e.2)).flatMap fun c => (r.missing c.2).map (.below c.1) := by
  induction fields with
  | nil => rfl
  | cons e fields ih =>
    obtain ⟨k, v⟩ := e
    by_cases permission : k = Directive.noRefCheckKey <;> simp [missingFields, permission, ih]

theorem missing_eq (v : Json) : r.missing v = r.missingHere v ++ r.missingBelow v := by
  cases v with
  | array items => rw [missing, missingItems_eq, missingBelow, readable_array]; rfl
  | object fields => rw [missing, missingFields_eq, missingBelow, readable_object]; rfl
  | _ => simp [missing, missingBelow, readable, Json.children]

theorem mem_missingBelow :
    t ∈ r.missingBelow v ↔ ∃ s u t', (s, u) ∈ readable v ∧ t' ∈ r.missing u ∧ t = t'.below s := by
  simp only [missingBelow, List.mem_flatMap, List.mem_map]
  constructor
  · rintro ⟨⟨s, u⟩, child, t', token, rfl⟩
    exact ⟨s, u, t', child, token, rfl⟩
  · rintro ⟨s, u, t', child, token, rfl⟩
    exact ⟨(s, u), child, t', token, rfl⟩

/-! ## Exactly the missing references -/

theorem replacement?_eq_none {ref : Reference} : r.replacement? ref = none ↔ r.Lacks ref := by
  by_cases named : ref.splitFragment.1 = [] → ref.splitFragment.2 = none
  · rw [replacement?_of_path rfl named, Option.map_eq_none_iff]
    exact ⟨.mk named, Lacks.notFound⟩
  · refine iff_of_false ?_ fun lacks => named lacks.named
    rw [Classical.not_imp] at named
    obtain ⟨path, fragment⟩ := named
    obtain ⟨f, given⟩ := Option.ne_none_iff_exists'.mp fragment
    rw [replacement?_of_fragment (Prod.ext path given)]
    simp

theorem mem_missingHere : t ∈ r.missingHere v ↔ t.place = [] ∧
    (∃ text, v = .string text ∧ (pieces text.toList)[t.position]? = some (.reference t.ref)) ∧
      r.Lacks t.ref := by
  cases v with
  | string text =>
    simp only [missingHere, List.mem_filterMap, Json.string.injEq, exists_eq_left']
    constructor
    · rintro ⟨⟨piece, i⟩, member, token⟩
      cases piece with
      | char c => simp at token
      | reference ref =>
        by_cases lacks : r.replacement? ref = none
        · simp only [lacks, Option.isNone_none, if_true, Option.some.injEq] at token
          obtain rfl := token
          exact ⟨rfl, List.mem_zipIdx_iff_getElem?.mp member, replacement?_eq_none.mp lacks⟩
        · simp [lacks] at token
    · obtain ⟨place, position, ref⟩ := t
      rintro ⟨rfl, piece, lacks⟩
      refine ⟨(.reference ref, position), List.mem_zipIdx_iff_getElem?.mpr piece, ?_⟩
      simp [replacement?_eq_none.mpr lacks]
  | _ => simp [missingHere]

theorem missingHere_eq_nil (noText : ∀ text, v ≠ .string text) : r.missingHere v = [] := by
  cases v with
  | string text => exact absurd rfl (noText text)
  | _ => rfl

theorem isMissing_nil {position : Nat} {ref : Reference} :
    r.IsMissing v ⟨[], position, ref⟩ ↔
      (∃ text, v = .string text ∧ (pieces text.toList)[position]? = some (.reference ref)) ∧
        r.Lacks ref := by
  constructor
  · rintro ⟨⟨text, leads, piece⟩, -, lacks⟩
    exact ⟨⟨text, Option.some.inj leads, piece⟩, lacks⟩
  · rintro ⟨⟨text, rfl, piece⟩, lacks⟩
    exact ⟨⟨text, rfl, piece⟩, by simp, lacks⟩

theorem isMissing_below : r.IsMissing v (t.below s) ↔
    ∃ u, (v.child? s = some u ∧ s ≠ .key Directive.noRefCheckKey) ∧ r.IsMissing u t := by
  constructor
  · rintro ⟨⟨text, leads, piece⟩, read, lacks⟩
    obtain ⟨u, child, leads⟩ := Option.bind_eq_some_iff.mp leads
    obtain ⟨here, read⟩ := not_or.mp (mt List.mem_cons.mpr read)
    exact ⟨u, ⟨child, Ne.symm here⟩, ⟨text, leads, piece⟩, read, lacks⟩
  · rintro ⟨u, ⟨child, here⟩, ⟨text, leads, piece⟩, read, lacks⟩
    refine ⟨⟨text, ?_, piece⟩, ?_, lacks⟩
    · simpa [Token.below, Json.at?, child] using leads
    · simpa [Token.below] using ⟨Ne.symm here, read⟩

/-- The missing references are listed, and nothing else. -/
theorem mem_missing (distinct : v.DistinctKeys) : t ∈ r.missing v ↔ r.IsMissing v t := by
  induction distinct using Json.DistinctKeys.byChildren generalizing t with
  | step v distinct ih =>
    obtain ⟨place, position, ref⟩ := t
    rw [missing_eq, List.mem_append, mem_missingHere, mem_missingBelow]
    cases place with
    | nil => simp [isMissing_nil, Token.below]
    | cons s place =>
      have below :
          (⟨s :: place, position, ref⟩ : Token) = Token.below s ⟨place, position, ref⟩ := rfl
      rw [below, isMissing_below]
      constructor
      · rintro (⟨root, -⟩ | ⟨s', u, ⟨place', position', ref'⟩, member, token, same⟩)
        · simp [Token.below] at root
        · obtain ⟨⟨rfl, rfl⟩, rfl, rfl⟩ := by simpa [Token.below] using same
          obtain ⟨child, looked⟩ := (mem_readable distinct).mp member
          exact ⟨u, ⟨child, looked⟩, (ih _ u child).mp token⟩
      · rintro ⟨u, looked, token⟩
        exact .inr ⟨s, u, _, (mem_readable distinct).mpr looked, (ih _ u looked.1).mpr token, rfl⟩

/-! ## In the order of the document -/

theorem pairwise_missingHere : (r.missingHere v).Pairwise (Token.Precedes v) := by
  cases v with
  | string text =>
    refine List.pairwise_filterMap.mpr (List.Pairwise.imp ?_
      (List.pairwise_iff_getElem.mpr fun i j hi hj earlier => ?_ :
        (pieces text.toList).zipIdx.Pairwise fun a b => a.2 < b.2))
    · rintro ⟨piece, i⟩ ⟨piece', j⟩ earlier t token t' token'
      cases piece <;> cases piece' <;>
        simp only [reduceCtorEq, Option.ite_none_right_eq_some, Option.some.injEq] at token token'
      obtain ⟨-, rfl⟩ := token
      obtain ⟨-, rfl⟩ := token'
      exact .inr ⟨rfl, earlier⟩
    · simpa using earlier
  | _ => exact List.Pairwise.nil

theorem pairwise_missing (distinct : v.DistinctKeys) :
    (r.missing v).Pairwise (Token.Precedes v) := by
  induction distinct using Json.DistinctKeys.byChildren with
  | step v distinct ih =>
    have below : ∀ c ∈ readable v, v.child? c.1 = some c.2 := fun c member =>
      ((mem_readable distinct).mp member).1
    rw [missing_eq, List.pairwise_append]
    refine ⟨pairwise_missingHere, List.pairwise_flatMap.mpr ⟨fun c member => ?_, ?_⟩, ?_⟩
    · exact List.pairwise_map.mpr ((ih _ _ (below c member)).imp
        (Token.precedes_below (below c member)).mpr)
    · refine ((Json.pairwise_rank_children distinct).filter _).imp fun rank t token t' token' => ?_
      obtain ⟨t, -, rfl⟩ := List.mem_map.mp token
      obtain ⟨t', -, rfl⟩ := List.mem_map.mp token'
      exact .inl (Json.before_of_rank rank _ _)
    · intro t token t' token'
      obtain ⟨s, u, t', -, -, rfl⟩ := mem_missingBelow.mp token'
      obtain ⟨root, -⟩ := mem_missingHere.mp token
      exact .inl (by rw [root]; exact Json.before_nil_cons _ _ _)

end SchemaLoom.Resolver
