import SchemaLoom.Discovery
import SchemaLoom.Proofs.Context
import SchemaLoom.Proofs.Json.Order

/-!
# The entries that a walk comes to

Finding the directives of a document is a walk that comes to entries of its objects in the order of
the document. Whether an entry asks for a call is seen from its key and value alone, and the context
of the call is the one that its layer has in the document.
-/

namespace SchemaLoom

/-- The key of the layer that asks for the call. -/
def DeferredCall.key (call : DeferredCall) : String :=
  match call.action with
  | .importing _ => Directive.importKey
  | .template key => key

namespace Discovery

/-- What a child of a node is. -/
def childKind (owner : FrameKind) : Segment → Json → FrameKind
  | .key k, v => fieldKind owner k v
  | .index _, v => itemKind v

end Discovery

namespace Context

/-- The context of the node at a location in a node. -/
def along (c : Context) : Location → Json → Context
  | [], _ => c
  | s :: l, v => match v.child? s with
    | some u => (c.push s (Discovery.childKind c.current.kind s u) u).along l u
    | none => c

theorem along_cons {c : Context} {s : Segment} {v u : Json} (child : v.child? s = some u)
    (l : Location) : c.along (s :: l) v =
      (c.push s (Discovery.childKind c.current.kind s u) u).along l u := by
  simp [along, child]

theorem location_along (c : Context) {l : Location} {v w : Json} (leads : v.at? l = some w) :
    (c.along l v).location = c.location ++ l := by
  induction l generalizing c v with
  | nil => simp [along]
  | cons s l ih =>
    obtain ⟨u, child, leads⟩ := Option.bind_eq_some_iff.mp leads
    rw [along_cons child, ih _ leads, location_push, List.append_assoc, List.singleton_append]

end Context

namespace Discovery

/-- An entry of a document and the location of the layer that holds it. -/
structure Entry where
  layer : Location
  key : String
  value : Json

namespace Entry

/-- The location of the entry itself. -/
def place (e : Entry) : Location := e.layer ++ [.key e.key]

/-- The entry as it is seen from around the node that holds it. -/
def below (s : Segment) (e : Entry) : Entry := { e with layer := s :: e.layer }

theorem place_below (s : Segment) (e : Entry) : (e.below s).place = s :: e.place := rfl

/-- What an entry asks for. -/
def action? (e : Entry) : Option Action :=
  if e.key = Directive.importKey then some (.importing e.value)
  else if Directive.templatedKeys.contains e.key && isTemplated e.value then some (.template e.key)
  else .none

/-- The key of an entry that is shaped like a directive and means nothing. -/
def unknown? (e : Entry) : Option String :=
  if Directive.looksLike e.key && !Directive.known.contains e.key then some e.key else .none

/-- The call for an entry in a node. -/
def call? (c : Context) (v : Json) (e : Entry) : Option DeferredCall :=
  e.action?.map fun action => ⟨c.along e.layer v, action⟩

end Entry

mutual

/-- The entries in a node that the walk comes to. -/
def entries : Json → List Entry
  | .array items => itemEntries 0 items
  | .object fields => fieldEntries fields
  | _ => []

def itemEntries (i : Nat) : List Json → List Entry
  | [] => []
  | v :: vs => (entries v).map (.below (.index i)) ++ itemEntries (i + 1) vs

def fieldEntries : List (String × Json) → List Entry
  | [] => []
  | (k, v) :: rest =>
    ⟨[], k, v⟩ :: if k = Directive.importKey then []
      else (if Directive.looksLike k then [] else (entries v).map (.below (.key k))) ++
        fieldEntries rest

end

/-! ## The walk is over these entries -/

/-- What is found when the walk comes to entries of a node. -/
def ofEntries (c : Context) (v : Json) (found : List Entry) : Discovery :=
  ⟨found.filterMap (·.call? c v), found.filterMap (·.unknown?)⟩

variable {c : Context} {v u : Json} {s : Segment}

theorem append_def (a b : Discovery) :
    a ++ b = ⟨a.calls ++ b.calls, a.unknown ++ b.unknown⟩ := rfl

@[simp] theorem none_append (d : Discovery) : none ++ d = d := rfl

theorem ofEntries_append (a b : List Entry) :
    ofEntries c v (a ++ b) = ofEntries c v a ++ ofEntries c v b := by
  simp [ofEntries, append_def]

theorem ofEntries_below (child : v.child? s = some u) (found : List Entry) :
    ofEntries c v (found.map (.below s)) =
      ofEntries (c.push s (childKind c.current.kind s u) u) u found := by
  have calls : (fun e : Entry => (e.below s).call? c v) =
      fun e => e.call? (c.push s (childKind c.current.kind s u) u) u := by
    funext e
    simp [Entry.call?, Entry.below, Entry.action?, Context.along_cons child]
  simp only [ofEntries, List.filterMap_map, Function.comp_def, calls]
  rfl

theorem inNode_of_isContainer (c : Context) (v : Json) :
    (if v.isContainer then inNode c v else none) = inNode c v := by
  cases v <;> simp [Json.isContainer, inNode]

theorem looksLike_importKey : Directive.looksLike Directive.importKey = true := by decide

theorem not_mem_templatedKeys {k : String} (shaped : Directive.looksLike k = true) :
    k ∉ Directive.templatedKeys := by
  intro member
  have plain : ∀ k ∈ Directive.templatedKeys, Directive.looksLike k = false := by decide
  rw [plain k member] at shaped
  exact absurd shaped (by decide)

/-- What is found at an entry of a layer itself. -/
theorem ofEntries_own (k : String) (w : Json) :
    ofEntries c v [⟨[], k, w⟩] =
      if k = Directive.importKey then ⟨[⟨c, .importing w⟩], []⟩
      else if Directive.looksLike k then
        if Directive.known.contains k then none else ⟨[], [k]⟩
      else ofField c k w := by
  by_cases importing : k = Directive.importKey
  · simp [ofEntries, Entry.call?, Entry.action?, Entry.unknown?, importing, Directive.known,
      Context.along]
  · by_cases shaped : Directive.looksLike k = true
    · have other := not_mem_templatedKeys shaped
      by_cases known : k ∈ Directive.known <;>
        simp [ofEntries, Entry.call?, Entry.action?, Entry.unknown?, importing, shaped, other,
          known, none]
    · by_cases asks : k ∈ Directive.templatedKeys ∧ isTemplated w = true <;>
        simp [ofEntries, Entry.call?, Entry.action?, Entry.unknown?, importing, shaped, asks,
          ofField, none, Context.along]

theorem inItems_eq {i : Nat} {items : List Json} (inside : ∀ u ∈ items, ∀ c : Context,
    inNode c u = ofEntries c u (entries u)) (here : ∀ j, v.child? (.index (i + j)) = items[j]?) :
    inItems c i items = ofEntries c v (itemEntries i items) := by
  induction items generalizing i with
  | nil => rfl
  | cons u items ih =>
    have child : v.child? (.index i) = some u := by simpa using here 0
    have later : ∀ j, v.child? (.index (i + 1 + j)) = items[j]? := by
      intro j
      rw [Nat.add_assoc, Nat.add_comm 1 j, here (j + 1), List.getElem?_cons_succ]
    rw [inItems, itemEntries, inNode_of_isContainer, inside u List.mem_cons_self, ofEntries_append,
      ofEntries_below child, ih (fun w member => inside w (List.mem_cons_of_mem _ member)) later]
    rfl

theorem inFields_eq {fields : Json.Fields} (inside : ∀ e ∈ fields, ∀ c : Context,
    inNode c e.2 = ofEntries c e.2 (entries e.2))
    (here : ∀ e ∈ fields, v.child? (.key e.1) = some e.2) :
    inFields c fields = ofEntries c v (fieldEntries fields) := by
  induction fields with
  | nil => rfl
  | cons e fields ih =>
    obtain ⟨k, w⟩ := e
    have child : v.child? (.key k) = some w := here _ List.mem_cons_self
    have later := ih (fun e member => inside e (List.mem_cons_of_mem _ member))
      fun e member => here e (List.mem_cons_of_mem _ member)
    rw [inFields, fieldEntries, ← List.singleton_append (l := ite _ _ _), ofEntries_append,
      ofEntries_own]
    by_cases importing : k = Directive.importKey
    · simp only [if_pos importing]
      rfl
    · simp only [if_neg importing]
      by_cases shaped : Directive.looksLike k = true
      · simp only [if_pos shaped, later, List.nil_append]
      · rw [if_neg shaped, if_neg shaped, if_neg shaped, inNode_of_isContainer,
          inside _ List.mem_cons_self, ofEntries_append, ofEntries_below child, later]
        rfl

theorem inNode_eq (distinct : v.DistinctKeys) (c : Context) :
    inNode c v = ofEntries c v (entries v) := by
  induction distinct generalizing c with
  | null | bool _ | number _ | string _ => simp [inNode, entries, ofEntries, none]
  | @array items _ ih =>
    rw [inNode, entries]
    exact inItems_eq ih fun j => by simp [Json.child?]
  | @object fields nodup _ ih =>
    rw [inNode, entries]
    exact inFields_eq ih fun e member => Ordered.get?_of_mem nodup member

theorem ofDocument_eq {document : Json} (distinct : document.DistinctKeys) :
    ofDocument document = ofEntries (.ofRoot document) document (entries document) :=
  inNode_eq distinct _

end Discovery

end SchemaLoom
