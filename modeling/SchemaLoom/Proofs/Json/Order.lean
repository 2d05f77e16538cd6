import Mathlib.Data.List.Basic
import SchemaLoom.Proofs.DistinctKeys
import SchemaLoom.Proofs.Location

/-!
# The order of a document

A document is read from its beginning to its end: a node before what is in it, and the children of a
node one after the other, each with all that is in it. Each node on the way to a location stands at
some rank among its siblings, and the order is the lexicographic order of these ranks.
-/

namespace SchemaLoom

namespace Ordered

variable {α : Type}

theorem mem_of_get? {name : String} {value : α} {table : Ordered α}
    (h : get? name table = some value) : (name, value) ∈ table := by
  induction table with
  | nil => simp [get?] at h
  | cons entry rest ih =>
    obtain ⟨n, v⟩ := entry
    by_cases eq : n = name
    · rw [get?, if_pos eq, Option.some.injEq] at h
      simp [eq, h]
    · rw [get?, if_neg eq] at h
      exact List.mem_cons_of_mem _ (ih h)

end Ordered

namespace Json

theorem DistinctKeys.child {v u : Json} {s : Segment} (h : v.DistinctKeys)
    (child : v.child? s = some u) : u.DistinctKeys := by
  match s, v with
  | .key name, .object fields => exact h.entry (Ordered.mem_of_get? child)
  | .index i, .array items => exact h.item (List.mem_of_getElem? child)
  | .key _, .null | .key _, .bool _ | .key _, .number _ | .key _, .string _ | .key _, .array _ =>
    simp [child?] at child
  | .index _, .null | .index _, .bool _ | .index _, .number _ | .index _, .string _
  | .index _, .object _ => simp [child?] at child

theorem DistinctKeys.at? {v u : Json} {l : Location} (h : v.DistinctKeys)
    (leads : v.at? l = some u) : u.DistinctKeys := by
  induction l generalizing v with
  | nil => exact Option.some.inj leads ▸ h
  | cons s l ih =>
    obtain ⟨w, child, leads⟩ := Option.bind_eq_some_iff.mp leads
    exact ih (h.child child) leads

/-- Where a child stands among the children of a node. -/
def rank (v : Json) : Segment → Nat
  | .index i => i
  | .key name => match v with
    | .object fields => (Ordered.names fields).idxOf name
    | _ => 0

/-- The ranks of the nodes on the way to a location. -/
def ranks : Location → Json → List Nat
  | [], _ => []
  | s :: l, v => v.rank s :: ((v.child? s).map (ranks l)).getD []

/-- One location comes before another one in a document. -/
def Before (v : Json) (l m : Location) : Prop := ranks l v < ranks m v

instance (v : Json) (l m : Location) : Decidable (v.Before l m) :=
  inferInstanceAs (Decidable (ranks l v < ranks m v))

variable {v u : Json} {s t : Segment} {l m : Location}

theorem Before.irrefl (v : Json) (l : Location) : ¬ v.Before l l := List.lt_irrefl _

theorem Before.asymm (h : v.Before l m) : ¬ v.Before m l := List.lt_asymm h

theorem before_nil_cons (v : Json) (s : Segment) (l : Location) : v.Before [] (s :: l) :=
  List.nil_lt_cons _ _

theorem before_of_rank (h : v.rank s < v.rank t) (l m : Location) :
    v.Before (s :: l) (t :: m) :=
  List.cons_lt_cons_iff.mpr (.inl h)

theorem before_cons_iff (child : v.child? s = some u) :
    v.Before (s :: l) (s :: m) ↔ u.Before l m := by
  simp [Before, ranks, child]

theorem before_append_iff {n : Location} (leads : v.at? n = some u) :
    v.Before (n ++ l) (n ++ m) ↔ u.Before l m := by
  induction n generalizing v with
  | nil =>
    obtain rfl := Option.some.inj leads
    rfl
  | cons s n ih =>
    obtain ⟨w, child, leads⟩ := Option.bind_eq_some_iff.mp leads
    rw [List.cons_append, List.cons_append, before_cons_iff child, ih leads]

/-- Of two entries of an object, the one written first has the lower rank. -/
theorem rank_key_lt {before rest : Fields} {k n : String} {w : Json}
    (distinct : (Ordered.names (before ++ (k, w) :: rest)).Nodup) (later : n ∈ Ordered.names rest) :
    (Json.object (before ++ (k, w) :: rest)).rank (.key k) <
      (Json.object (before ++ (k, w) :: rest)).rank (.key n) := by
  rw [Ordered.names_append, Ordered.names_cons, List.nodup_append'] at distinct
  obtain ⟨-, inRest, apart⟩ := distinct
  have absent : k ∉ Ordered.names before := fun member => apart member List.mem_cons_self
  have absent' : n ∉ Ordered.names before := fun member =>
    apart member (List.mem_cons_of_mem _ later)
  have different : k ≠ n := by
    rintro rfl
    exact (List.nodup_cons.mp inRest).1 later
  simp only [rank, Ordered.names_append, Ordered.names_cons]
  rw [List.idxOf_append_of_notMem absent, List.idxOf_append_of_notMem absent', List.idxOf_cons_self,
    List.idxOf_cons_ne _ different]
  omega

/-- The children of a node, in the order of the document. -/
def children : Json → List (Segment × Json)
  | .array items => items.zipIdx.map fun e => (.index e.2, e.1)
  | .object fields => fields.map fun e => (.key e.1, e.2)
  | _ => []

theorem mem_children (distinct : v.DistinctKeys) :
    (s, u) ∈ v.children ↔ v.child? s = some u := by
  cases v with
  | array items =>
    cases s <;> simp [children, child?, List.mem_zipIdx_iff_getElem?]
  | object fields =>
    cases s with
    | index i => simp [children, child?]
    | key name =>
      have entry : (name, u) ∈ fields ↔ Ordered.get? name fields = some u :=
        ⟨Ordered.get?_of_mem distinct.nodup, Ordered.mem_of_get?⟩
      simpa [children, child?] using entry
  | _ => cases s <;> simp [children, child?]

theorem pairwise_rank_children (distinct : v.DistinctKeys) :
    v.children.Pairwise fun a b => v.rank a.1 < v.rank b.1 := by
  refine List.pairwise_iff_getElem.mpr fun i j hi hj earlier => ?_
  cases v with
  | array items => simpa [children, rank] using earlier
  | object fields =>
    have position : ∀ k, (inside : k < fields.length) →
        (Ordered.names fields).idxOf fields[k].1 = k := by
      intro k inside
      have named : k < (Ordered.names fields).length := by simpa [Ordered.names] using inside
      simpa [Ordered.names] using distinct.nodup.idxOf_getElem k named
    simp only [children, List.length_map] at hi hj
    simpa [children, rank, position _ hi, position _ hj] using earlier
  | _ => simp [children] at hi

/-- What holds of a node if it holds of its children holds of every document. -/
@[elab_as_elim]
theorem DistinctKeys.byChildren {motive : (v : Json) → v.DistinctKeys → Prop}
    (step : ∀ (v : Json) (distinct : v.DistinctKeys),
      (∀ s u, (child : v.child? s = some u) → motive u (distinct.child child)) → motive v distinct)
    {v : Json} (distinct : v.DistinctKeys) : motive v distinct := by
  induction distinct with
  | null | bool _ | number _ | string _ =>
    refine step _ (by constructor) fun s u child => ?_
    cases s <;> simp [child?] at child
  | array all ih =>
    refine step _ (.array all) fun s u child => ?_
    cases s with
    | key name => simp [child?] at child
    | index i => exact ih u (List.mem_of_getElem? child)
  | object nodup all ih =>
    refine step _ (.object nodup all) fun s u child => ?_
    cases s with
    | key name => exact ih _ (Ordered.mem_of_get? child)
    | index i => simp [child?] at child

end Json

end SchemaLoom
