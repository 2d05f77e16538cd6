import Mathlib.Data.List.Induction
import SchemaLoom.Proofs.Discovery.Reached
import SchemaLoom.Proofs.Expansion.Shift

/-!
# The nearest annotation

The context of a call shows the annotations of the schemas around its layer, the innermost first, as
they stand in the document. What is a schema depends on what is around it: under `properties` and
the like a schema holds a map of names, and what a map holds is a schema again, whatever its name
is.
-/

namespace SchemaLoom

/-- What the node at a location of a document is, an array or an object: the root is a schema, an
array in the document is none, and an object is one, unless it is the map of names that a schema has
under certain keys. -/
inductive KindAt (document : Json) : Location → FrameKind → Prop
  | root : KindAt document [] .schema
  | array {l : Location} {s : Segment} {items : List Json} :
      document.at? (l ++ [s]) = some (.array items) → KindAt document (l ++ [s]) .container
  | item {l : Location} {i : Nat} {fields : Json.Fields} :
      document.at? (l ++ [.index i]) = some (.object fields) →
      KindAt document (l ++ [.index i]) .schema
  | map {l : Location} {k : String} {fields : Json.Fields} : KindAt document l .schema →
      k ∈ Discovery.schemaMapKeys → document.at? (l ++ [.key k]) = some (.object fields) →
      KindAt document (l ++ [.key k]) .container
  | entry {l : Location} {k : String} {kind : FrameKind} {fields : Json.Fields} :
      KindAt document l kind → ¬ (kind = .schema ∧ k ∈ Discovery.schemaMapKeys) →
      document.at? (l ++ [.key k]) = some (.object fields) →
      KindAt document (l ++ [.key k]) .schema

/-- The node at a location is a schema with a text under an annotation's key that is not empty. -/
structure Offers (document : Json) (l : Location) (a : Annotation) (text : String) : Prop where
  schema : KindAt document l .schema
  nonempty : text ≠ ""
  holds : (document.at? l).bind (Json.getString? a.key) = some text

/-- What the innermost schema around a node offers that offers anything. -/
def OffersNearest (document : Json) (l : Location) (a : Annotation) (text : String) : Prop :=
  ∃ m, Location.Innermost (fun n => ∃ other, Offers document n a other) l m ∧
    Offers document m a text

variable {document : Json} {l m : Location} {s : Segment} {a : Annotation} {text : String}
  {kind owner : FrameKind} {c : Context} {u : Json}

/-! ## Kinds -/

theorem kindAt_nil (h : KindAt document [] kind) : kind = .schema := by
  generalize root : ([] : Location) = l at h
  cases h with
  | root => rfl
  | array _ | item _ | map _ _ _ | entry _ _ _ => simp at root

/-- The kind of an object under a key depends on the kind of the node around it. -/
theorem kindAt_concat (h : KindAt document (l ++ [s]) kind) :
    (kind = .container ∧ ∃ items, document.at? (l ++ [s]) = some (.array items)) ∨
    (∃ fields, document.at? (l ++ [s]) = some (.object fields)) ∧
      ((∃ i, s = .index i ∧ kind = .schema) ∨ ∃ k owner, s = .key k ∧ KindAt document l owner ∧
        kind = if owner = .schema ∧ k ∈ Discovery.schemaMapKeys then .container else .schema) := by
  generalize way : l ++ [s] = m at h
  cases h with
  | root => simp at way
  | array node => exact .inl ⟨rfl, _, node⟩
  | item node =>
    obtain ⟨rfl, rfl⟩ : l = _ ∧ s = _ := by simpa using way
    exact .inr ⟨⟨_, node⟩, .inl ⟨_, rfl, rfl⟩⟩
  | map schema key node =>
    obtain ⟨rfl, rfl⟩ : l = _ ∧ s = _ := by simpa using way
    exact .inr ⟨⟨_, node⟩, .inr ⟨_, _, rfl, schema, by simp [key]⟩⟩
  | entry owner other node =>
    obtain ⟨rfl, rfl⟩ : l = _ ∧ s = _ := by simpa using way
    exact .inr ⟨⟨_, node⟩, .inr ⟨_, _, rfl, owner, by rw [if_neg other]⟩⟩

theorem KindAt.unique (h : KindAt document l kind) (h' : KindAt document l owner) :
    kind = owner := by
  induction l using List.reverseRecOn generalizing kind owner with
  | nil => rw [kindAt_nil h, kindAt_nil h']
  | append_singleton l s ih =>
    rcases kindAt_concat h with ⟨rfl, items, node⟩ | ⟨⟨fields, node⟩, kinds⟩
    · rcases kindAt_concat h' with ⟨rfl, -⟩ | ⟨⟨fields, node'⟩, -⟩
      · rfl
      · simp [node] at node'
    · rcases kindAt_concat h' with ⟨-, items, node'⟩ | ⟨-, kinds'⟩
      · simp [node] at node'
      · rcases kinds with ⟨i, rfl, rfl⟩ | ⟨k, o, rfl, here, rfl⟩
        · rcases kinds' with ⟨j, -, rfl⟩ | ⟨k, o, key, -⟩
          · rfl
          · simp at key
        · rcases kinds' with ⟨j, index, -⟩ | ⟨k', o', key, here', rfl⟩
          · simp at index
          · obtain rfl := Segment.key.inj key
            rw [ih here here']

/-- The walk gives a child the kind that it has in the document. -/
theorem kindAt_child (around : KindAt document l kind) (node : document.at? (l ++ [s]) = some u)
    (container : u.isContainer = true) :
    KindAt document (l ++ [s]) (Discovery.childKind kind s u) := by
  cases u with
  | array items => cases s <;> exact .array node
  | object fields =>
    cases s with
    | index i => exact .item node
    | key k =>
      by_cases map : kind = .schema ∧ k ∈ Discovery.schemaMapKeys
      · obtain ⟨rfl, key⟩ := map
        simpa [Discovery.childKind, Discovery.fieldKind, key] using KindAt.map around key node
      · have schema : Discovery.childKind kind (.key k) (.object fields) = .schema := by
          simpa [Discovery.childKind, Discovery.fieldKind] using map
        rw [schema]
        exact .entry around map node
  | _ => simp [Json.isContainer] at container

/-! ## Contexts of nodes -/

namespace Context

/-- The context is that of a node of a document. -/
inductive Of (document : Json) : Context → Prop
  | root : Of document (.ofRoot document)
  | push {c : Context} {s : Segment} {kind : FrameKind} {u : Json} : Of document c →
      document.at? (c.location ++ [s]) = some u → KindAt document (c.location ++ [s]) kind →
      Of document (c.push s kind u)

theorem Of.current (h : Of document c) : ∃ node kind, document.at? c.location = some node ∧
    KindAt document c.location kind ∧ c.current = .ofNode kind node := by
  cases h with
  | root => exact ⟨document, .schema, rfl, .root, rfl⟩
  | @push c s kind u _ node kindAt =>
    rw [location_push, current_push]
    exact ⟨u, kind, node, kindAt, rfl⟩

theorem current_kind {node : Json} (frame : c.current = .ofNode kind node) :
    c.current.kind = kind := by
  rw [frame]
  rfl

/-- The contexts that the walk makes are those of the nodes. -/
theorem Of.along {v w : Json} (h : Of document c) (node : document.at? c.location = some v)
    (leads : v.at? l = some w) (container : w.isContainer = true) :
    Of document (c.along l v) := by
  induction l generalizing c v with
  | nil => exact h
  | cons s l ih =>
    obtain ⟨u, child, leads⟩ := Option.bind_eq_some_iff.mp leads
    have there : document.at? (c.location ++ [s]) = some u := by
      simp [Json.at?_append, node, Json.at?, child]
    have inner : u.isContainer = true := by
      cases l with
      | nil =>
        obtain rfl := Option.some.inj leads
        exact container
      | cons t l =>
        obtain ⟨x, below, -⟩ := Option.bind_eq_some_iff.mp leads
        cases u with
        | array _ | object _ => rfl
        | _ => cases t <;> simp [Json.child?] at below
    obtain ⟨v', kind, -, kindAt, frame⟩ := h.current
    rw [along_cons child, current_kind frame]
    exact ih (.push h there (kindAt_child kindAt there inner))
      (by rw [location_push]; exact there) leads

/-! ## What contexts show -/

theorem annotation?_ofNode (kind : FrameKind) (node : Json) (a : Annotation) :
    (Frame.ofNode kind node).annotation? a =
      (Frame.captured kind node a).filter fun s => s ≠ "" := by
  cases a <;> rfl

theorem Of.annotation?_current (h : Of document c) :
    c.current.annotation? a = some text ↔ Offers document c.location a text := by
  obtain ⟨node, kind, here, kindAt, frame⟩ := h.current
  rw [frame, annotation?_ofNode, Option.filter_eq_some_iff]
  constructor
  · rintro ⟨captured, nonempty⟩
    cases kind with
    | container => simp [Frame.captured] at captured
    | schema =>
      exact ⟨kindAt, by simpa using nonempty, by simpa [Frame.captured, here] using captured⟩
  · rintro ⟨schema, nonempty, holds⟩
    obtain rfl := kindAt.unique schema
    exact ⟨by simpa [Frame.captured, here] using holds, by simpa using nonempty⟩

theorem nearestAncestor_ofRoot (document : Json) (a : Annotation) :
    (ofRoot document).nearestAncestor a = none := rfl

/-- Around a child there is its node, and what is around the node. -/
theorem nearestAncestor_push (c : Context) (s : Segment) (kind : FrameKind) (u : Json)
    (a : Annotation) : (c.push s kind u).nearestAncestor a =
      (if c.current.kind = .schema then c.current.annotation? a else none).or
        (c.nearestAncestor a) := by
  have frames : (c.push s kind u).frames.dropLast = c.frames.dropLast ++ [c.current] := by
    have ends : c.frames.getLast? = some c.current := by
      simp [current, Context.frames, List.getLast?_cons]
    rw [List.dropLast_append_getLast? _ ends]
    simp only [push, Context.frames, List.map_append, List.map_cons, List.map_nil,
      ← List.cons_append, List.dropLast_concat]
  rw [nearestAncestor, frames, List.reverse_append, List.reverse_singleton, List.singleton_append,
    List.filter_cons]
  by_cases schema : c.current.kind = .schema
  · simp only [schema, decide_true, if_true, List.findSome?_cons, nearestAncestor]
    cases c.current.annotation? a <;> rfl
  · simp [schema, nearestAncestor]

/-- Around a layer the innermost schema that offers an annotation is seen. -/
theorem Of.nearestAncestor_eq_some_iff (h : Of document c) :
    c.nearestAncestor a = some text ↔ OffersNearest document c.location a text := by
  induction h generalizing text with
  | root =>
    rw [nearestAncestor_ofRoot]
    constructor
    · simp
    · rintro ⟨m, innermost, -⟩
      exact absurd innermost Location.not_innermost_nil
  | @push c s kind u h node kindAt ih =>
    -- What the node that was current shows to its child.
    have own : ∀ text, (if c.current.kind = .schema then c.current.annotation? a else none) =
        some text ↔ Offers document c.location a text := by
      intro text
      rw [← h.annotation?_current]
      refine Option.ite_none_right_eq_some.trans (and_iff_right_of_imp fun offered => ?_)
      obtain ⟨node, kind, -, kindAt, frame⟩ := h.current
      rw [current_kind frame]
      exact kindAt.unique (h.annotation?_current.mp offered).schema
    rw [nearestAncestor_push, Option.or_eq_some_iff, own, ih, location_push]
    simp only [OffersNearest, Location.innermost_concat, Option.eq_none_iff_forall_ne_some, ne_eq,
      own]
    constructor
    · rintro (offers | ⟨none, m, innermost, offers⟩)
      · exact ⟨_, .inl ⟨⟨_, offers⟩, rfl⟩, offers⟩
      · exact ⟨m, .inr ⟨not_exists.mpr none, innermost⟩, offers⟩
    · rintro ⟨m, ⟨-, rfl⟩ | ⟨none, innermost⟩, offers⟩
      · exact .inl offers
      · exact .inr ⟨not_exists.mp none, m, innermost, offers⟩

end Context

namespace Discovery

open Context

theorem of_calls {call : DeferredCall} (distinct : document.DistinctKeys)
    (found : call ∈ (ofDocument document).calls) : Of document call.context := by
  obtain ⟨e, entry, asked⟩ := (mem_calls distinct).mp found
  obtain ⟨fields, reached, -⟩ := mem_entries.mp entry
  rw [(call?_eq_some asked).2]
  exact Of.root.along rfl (reached.at? distinct) rfl

/-- A call sees the annotation of the innermost schema around its layer that has one; if there is no
such schema and the layer is a schema itself, its own. No splice changes what it sees. -/
theorem nearest_of_call (document : Json) (distinct : document.DistinctKeys) (call : DeferredCall)
    (found : call ∈ (ofDocument document).calls) (a : Annotation) (splices : List Splice) :
    (∀ text, (splices.foldl shiftAfter call.context).nearestAncestor a = some text ↔
      OffersNearest document call.context.location a text) ∧
    ∀ text, (splices.foldl shiftAfter call.context).nearest a = some text ↔
      OffersNearest document call.context.location a text ∨
        (∀ other, ¬ OffersNearest document call.context.location a other) ∧
          Offers document call.context.location a text := by
  have of := of_calls distinct found
  have frames := frames_shiftAfter splices call.context
  rw [nearestAncestor_congr frames, nearest_congr frames (root_shiftAfter _ _)]
  refine ⟨fun text => of.nearestAncestor_eq_some_iff, fun text => ?_⟩
  rw [nearest, Option.or_eq_some_iff, of.annotation?_current, of.nearestAncestor_eq_some_iff,
    Option.eq_none_iff_forall_ne_some]
  simp only [ne_eq, of.nearestAncestor_eq_some_iff]

/-- A schema whose property has the name of a key that maps names. -/
def namesake : Json :=
  .object [("title", .string "Root"), ("description", .string "whole"),
    ("properties", .object [("description", .string "no text"),
      ("properties", .object [("title", .string "Inner"), ("markdownDescription", .string ""),
        ("items", .array [.object [("description", .string "$title")]])])])]

/-- The layer in it that asks for a title. -/
def namesakeLayer : Location := [.key "properties", .key "properties", .key "items", .index 0]

theorem nearest_of_call_namesake :
    namesake.DistinctKeys ∧
    ∃ call ∈ (ofDocument namesake).calls, call.context.location = namesakeLayer ∧
      ([⟨namesakeLayer.dropLast, 0, 3⟩].foldl shiftAfter call.context).nearestAncestor .title =
        some "Inner" ∧ OffersNearest namesake namesakeLayer .title "Inner" ∧
      ([⟨namesakeLayer.dropLast, 0, 3⟩].foldl shiftAfter call.context).nearest .description =
        some "whole" ∧ OffersNearest namesake namesakeLayer .description "whole" := by
  have distinct : namesake.DistinctKeys := by decide +kernel
  obtain ⟨call, found, same⟩ : ∃ call ∈ (ofDocument namesake).calls,
      call.context = (Context.ofRoot namesake).along namesakeLayer namesake :=
    ⟨_, List.mem_of_getElem? (i := 0) rfl, rfl⟩
  have inner := (nearest_of_call namesake distinct call found .title
    [⟨namesakeLayer.dropLast, 0, 3⟩]).1 "Inner"
  have whole := (nearest_of_call namesake distinct call found .description
    [⟨namesakeLayer.dropLast, 0, 3⟩]).1 "whole"
  rw [same] at inner whole
  refine ⟨distinct, call, found, ?_, ?_, inner.mp (by decide +kernel), ?_,
    whole.mp (by decide +kernel)⟩ <;>
  · rw [same]
    decide +kernel

/-- A call does not see what the map of names that is its layer holds under an annotation's key, and
a schema without an annotation does not hide those around it. -/
theorem not_nearest_of_map_layer :
    let document : Json := .object [("markdownDescription", .string "M"),
      ("items", .object [("properties", .object [("title", .string "T"),
        ("description", .string "$title")])])]
    KindAt document [.key "items"] .schema ∧
    (document.at? [.key "items"]).bind (Json.getString? "markdownDescription") = Option.none ∧
    (document.at? [.key "items", .key "properties"]).bind (Json.getString? "title") = some "T" ∧
    (ofDocument document).calls.map (fun call => (call.context.location,
        call.context.nearestAncestor .title, call.context.nearest .title,
        call.context.nearestAncestor .markdownDescription)) =
      [([.key "items", .key "properties"], Option.none, Option.none, some "M")] := by
  refine ⟨.entry (l := []) .root (by decide) rfl, by decide +kernel, by decide +kernel,
    by decide +kernel⟩

end Discovery

end SchemaLoom
