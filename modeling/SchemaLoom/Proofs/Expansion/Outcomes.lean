import SchemaLoom.Proofs.Context
import SchemaLoom.Proofs.Expansion.Layer
import SchemaLoom.Proofs.Expansion.Relocation
import SchemaLoom.Proofs.Session.Run

/-!
# What executed calls do to a document

What a call does to the document is known once it is known what its directives yield. The same
outcomes can therefore be replayed on another document: on the whole one, or on one of its objects
with only the calls in that object. Both agree, since a call changes nothing beside its layer but
the array that holds it.
-/

namespace SchemaLoom.Expansion

open Compile (execute executeImport ofImport ofImport_eq_ok shifted yieldOf)
open Splice (under relocated)

/-- What a call turns out to do. -/
inductive Outcome where
  /-- The tokens of a table are replaced in a field. -/
  | expanded (key : String) (table : Substitution)
  /-- The directives of an import yield something, one after the other. -/
  | imported (yields : List Splicing.Yield)

namespace Outcome

/-- What a directive yields is put into the document, or collected. -/
def place (l : Location) (document : Json × Option (List Json)) (yielded : Splicing.Yield) :
    Except ImportFault (Json × Option (List Json)) := do
  let placed ← Splicing.place document.1 l yielded
  return (placed, Splicing.collect document.2 yielded)

/-- What the outcome of a call with a context does to a document. -/
def enact (document : Json) (c : Context) : Outcome → Except ImportFault (Json × Option Splice)
  | .expanded key table =>
    .ok (document.modifyAt (expandField table) (c.location ++ [.key key]), none)
  | .imported yields => do
    let (document, collected) ← yields.foldlM (place c.location) (document, none)
    Splicing.finish document c collected

/-- The outcome is that of a call: its table is that of the call's context, and its yields are what
the directives gave in some runs. -/
def Answers (compile : Path → Compile CompiledSchema) (subject : Subject) (call : DeferredCall) :
    Outcome → Prop
  | .expanded key table => call.action = .template key ∧
      table = call.context.table key subject.fileName subject.id
  | .imported yields => ∃ arguments directives, call.action = .importing arguments ∧
      ImportDirective.parseAll arguments = .ok directives ∧
        List.Forall₂ (fun directive yielded => ∃ w v,
          yieldOf compile subject directive w = .ok yielded v) directives yields

end Outcome

/-- A call that was executed, and what came out. -/
structure Executed where
  call : DeferredCall
  outcome : Outcome

/-- The document after calls with these outcomes, and the splices they made. -/
def replay (document : Json) (splices : List Splice) :
    List Executed → Except ImportFault (Json × List Splice)
  | [] => .ok (document, splices)
  | x :: rest => do
    let r ← x.outcome.enact document (shifted splices x.call).context
    replay r.1 (splices ++ r.2.toList) rest

/-! ## Runs as replays -/

variable {compile : Path → Compile CompiledSchema} {subject : Subject}

theorem yields_of_directives {subject : Subject} {l : Location} {directives : List ImportDirective}
    {state state' : Json × Option (List Json)} {w v : Workbench}
    (run : (directives.foldlM (fun state directive => do
      let yielded ← yieldOf compile subject directive
      let document ← ofImport subject.id (Splicing.place state.1 l yielded)
      return (document, Splicing.collect state.2 yielded)) state : Compile _) w = .ok state' v) :
    ∃ yields, List.Forall₂ (fun directive yielded => ∃ w v,
        yieldOf compile subject directive w = .ok yielded v) directives yields ∧
      yields.foldlM (Outcome.place l) state = .ok state' := by
  induction directives generalizing state w with
  | nil =>
    simp only [List.foldlM_nil] at run
    cases run
    exact ⟨[], .nil, rfl⟩
  | cons directive directives ih =>
    rw [List.foldlM_cons, Compile.bind_eq_ok] at run
    obtain ⟨state₁, w₁, first, rest⟩ := run
    obtain ⟨yielded, w₂, yields, first⟩ := Compile.bind_eq_ok.mp first
    obtain ⟨document, w₃, placed, first⟩ := Compile.bind_eq_ok.mp first
    cases first
    obtain ⟨more, given, folded⟩ := ih rest
    refine ⟨yielded :: more, .cons ⟨_, _, yields⟩ given, ?_⟩
    rw [List.foldlM_cons, Outcome.place, (ofImport_eq_ok.mp placed).1]
    exact folded

/-- A call that succeeds has an outcome. -/
theorem outcome_of_execute {document : Json} {call : DeferredCall} {r : Json × Option Splice}
    {w v : Workbench} (run : execute compile subject document call w = .ok r v) :
    ∃ outcome : Outcome, outcome.Answers compile subject call ∧
      outcome.enact document call.context = .ok r := by
  obtain ⟨c, action⟩ := call
  cases action with
  | template key =>
    cases run
    exact ⟨.expanded key (c.table key subject.fileName subject.id), ⟨rfl, rfl⟩, rfl⟩
  | importing arguments =>
    obtain ⟨directives, w₁, parsed, run⟩ := Compile.bind_eq_ok.mp run
    obtain ⟨⟨document', collected⟩, w₂, folded, run⟩ := Compile.bind_eq_ok.mp run
    obtain ⟨yields, given, placed⟩ := yields_of_directives folded
    refine ⟨.imported yields,
      ⟨arguments, directives, rfl, (ofImport_eq_ok.mp parsed).1, given⟩, ?_⟩
    rw [Outcome.enact, placed]
    exact (ofImport_eq_ok.mp run).1

theorem Outcome.Answers.of_shifted {outcome : Outcome} {splices : List Splice}
    {call : DeferredCall} (h : outcome.Answers compile subject (shifted splices call)) :
    outcome.Answers compile subject call := by
  cases outcome with
  | imported yields => exact h
  | expanded key table =>
    refine ⟨h.1, h.2.trans (Context.table_congr (Compile.shifted_frames splices call) ?_ _ _ _)⟩
    simp [shifted, Splice.shiftAfter_foldl]

/-- What a run of calls does is replayed from their outcomes. -/
theorem replay_of_executeFrom {document : Json} {splices : List Splice} {calls : List DeferredCall}
    {r : Json × List Splice} {w v : Workbench}
    (run : executeFrom compile subject document splices calls w = .ok r v) :
    ∃ trace : List Executed, trace.map Executed.call = calls ∧
      (∀ x ∈ trace, x.outcome.Answers compile subject x.call) ∧
        replay document splices trace = .ok r := by
  induction calls generalizing document splices w with
  | nil =>
    cases run
    exact ⟨[], rfl, by simp, rfl⟩
  | cons call calls ih =>
    obtain ⟨first, w₁, here, rest⟩ := Compile.bind_eq_ok.mp run
    obtain ⟨outcome, answers, enacted⟩ := outcome_of_execute here
    obtain ⟨trace, same, all, replayed⟩ := ih rest
    refine ⟨⟨call, outcome⟩ :: trace, by simp [same], ?_, ?_⟩
    · exact List.forall_mem_cons.mpr ⟨answers.of_shifted, all⟩
    · rw [replay, enacted]
      exact replayed

/-! ## Outcomes on one layer -/

/-- An element of an array, with what stands before and behind it. -/
theorem split_of_slot {document v : Json} {array : Location} {i : Nat}
    (here : document.at? (array ++ [.index i]) = some v) :
    ∃ before after, before.length = i ∧
      document.at? array = some (.array (before ++ v :: after)) := by
  rw [Json.at?_append] at here
  obtain ⟨node, at_, here⟩ := Option.bind_eq_some_iff.mp here
  cases node with
  | array items =>
    have element : items[i]? = some v := by simpa [Json.at?, Json.child?] using here
    obtain ⟨inside, rfl⟩ := List.getElem?_eq_some_iff.mp element
    refine ⟨items.take i, items.drop (i + 1), by simp; omega, ?_⟩
    rw [at_]
    simp
  | _ => simp [Json.at?, Json.child?] at here

/-- The layer after what a directive of its import yields. -/
def placeIn (layer : Json.Fields × Option (List Json)) (yielded : Splicing.Yield) :
    Except ImportFault (Json.Fields × Option (List Json)) := do
  let fields ← placed layer.1 yielded
  return (fields, Splicing.collect layer.2 yielded)

variable {document : Json} {l : Location}

theorem place_eq_map (here : ∃ v, document.at? l = some v)
    (layer : Json.Fields × Option (List Json))
    (yielded : Splicing.Yield) :
    Outcome.place l (document.putAt l (.object layer.1), layer.2) yielded =
      (placeIn layer yielded).map fun r => (document.putAt l (.object r.1), r.2) := by
  have same := place_putAt here layer.1 yielded
  unfold Outcome.place placeIn
  generalize Splicing.place (document.putAt l (.object layer.1)) l yielded = run at same ⊢
  generalize placed layer.1 yielded = direct at same ⊢
  cases same with
  | ok h => exact congrArg (fun d => Except.ok (d, Splicing.collect layer.2 yielded)) h
  | error fault => rfl

theorem foldlM_place (here : ∃ v, document.at? l = some v) (yields : List Splicing.Yield)
    (layer : Json.Fields × Option (List Json)) :
    yields.foldlM (Outcome.place l) (document.putAt l (.object layer.1), layer.2) =
      (yields.foldlM placeIn layer).map fun r => (document.putAt l (.object r.1), r.2) := by
  induction yields generalizing layer with
  | nil => rfl
  | cons yielded yields ih =>
    rw [List.foldlM_cons, List.foldlM_cons, place_eq_map here]
    cases placeIn layer yielded with
    | error fault => rfl
    | ok layer => exact ih layer

/-- An import changes its layer, and then the branches go where the context says. -/
theorem enact_imported {c : Context} {fields : Json.Fields}
    (here : document.at? c.location = some (.object fields)) (yields : List Splicing.Yield) :
    Outcome.enact document c (.imported yields) =
      (yields.foldlM placeIn (fields, none)).bind fun r =>
        settle document c (Ordered.erase Directive.importKey r.1) r.2 := by
  have start := foldlM_place ⟨_, here⟩ yields (fields, none)
  rw [Json.putAt_self here] at start
  rw [Outcome.enact, start]
  cases yields.foldlM placeIn (fields, none) with
  | error fault => rfl
  | ok layer => exact finish_putAt ⟨_, here⟩ c rfl layer.1 layer.2

/-! ## Outcomes in a node -/

/-- The branches of an import go into the node as they go into the document. -/
theorem settle_within {x : Json} {c d : Context} {fields : Json.Fields}
    (there : document.at? l = some x) (location : c.location = l ++ d.location)
    (slot : c.arraySlot? = d.arraySlot?.map fun r => (l ++ r.1, r.2))
    (here : x.at? d.location = some (.object fields)) (changed : Json.Fields)
    (collected : Option (List Json)) :
    settle document c changed collected =
      (settle x d changed collected).map fun r => (document.putAt l r.1, r.2.map (under l)) := by
  have whole : document.at? c.location = some (.object fields) := by
    rw [location, Json.at?_append, there]
    exact here
  have put (u : Json) (m : Location) :
      document.putAt (l ++ m) u = document.putAt l (x.putAt m u) :=
    Json.modifyAt_append_eq_putAt _ _ there
  cases inner : d.arraySlot? with
  | none =>
    rw [inner] at slot
    rw [settle_own slot ⟨_, whole⟩, settle_own inner ⟨_, here⟩, location]
    cases ownBranches changed collected with
    | error fault => rfl
    | ok v => exact congrArg (fun u => Except.ok (u, none)) (put v d.location)
  | some r =>
    obtain ⟨array, i⟩ := r
    rw [inner] at slot
    have way := Context.location_of_arraySlot? inner
    obtain ⟨before, after, rfl, node⟩ := split_of_slot (way ▸ here)
    have nodeWhole : document.at? (l ++ array) =
        some (.array (before ++ .object fields :: after)) := by
      rw [Json.at?_append, there]
      exact node
    rw [settle_slot inner way node, settle_slot slot (by rw [location, way]; simp) nodeWhole,
      put]
    cases collected <;> rfl

theorem enact_within {x : Json} {c d : Context} {fields : Json.Fields} {outcome : Outcome}
    (there : document.at? l = some x) (location : c.location = l ++ d.location)
    (slot : ∀ yields, outcome = .imported yields →
      c.arraySlot? = d.arraySlot?.map fun r => (l ++ r.1, r.2))
    (here : x.at? d.location = some (.object fields)) :
    outcome.enact document c =
      (outcome.enact x d).map fun r => (document.putAt l r.1, r.2.map (under l)) := by
  cases outcome with
  | expanded key table =>
    rw [Outcome.enact, location, List.append_assoc, Json.modifyAt_append_eq_putAt _ _ there]
    rfl
  | imported yields =>
    have whole : document.at? c.location = some (.object fields) := by
      rw [location, Json.at?_append, there]
      exact here
    rw [enact_imported whole, enact_imported here]
    cases yields.foldlM placeIn (fields, none) with
    | error fault => rfl
    | ok layer => exact settle_within there location (slot yields rfl) here _ _

end SchemaLoom.Expansion
