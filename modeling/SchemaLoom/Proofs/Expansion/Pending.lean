import SchemaLoom.Proofs.Discovery.Entries
import SchemaLoom.Proofs.Expansion.Standing

/-!
# A run seen from one pending call

What becomes of the object that a pending call was found on is what the executed calls in that
object make of it when it is a document of its own: the other calls leave it as it is. The way to
it is the way as it was found, moved by the splices so far.
-/

namespace SchemaLoom

def DeferredCall.IsImport (call : DeferredCall) : Prop :=
  ∃ arguments, call.action = .importing arguments

/-- The call as it is found in a node on its way, behind the first steps. -/
def DeferredCall.within (n : Nat) (call : DeferredCall) : DeferredCall :=
  { call with context := call.context.within n }

namespace Expansion

open Compile (shifted shifted_location shifted_frames)
open Splice (relocate relocated under)

/-- The outcome of a call that is no import makes no splice. -/
def Executed.Fits (x : Executed) : Prop :=
  ∀ yields, x.outcome = .imported yields → x.call.IsImport

/-- Every call leads to an object that holds its key, and no import comes before a call in its
layer. -/
structure Standing (current : Json) (splices : List Splice) (calls : List DeferredCall) : Prop where
  layers : ∀ call ∈ calls, ∃ fields,
    current.at? (relocated splices call.context.location) = some (.object fields) ∧
      call.key ∈ Ordered.names fields
  ordered : calls.Pairwise fun a b => a.IsImport →
    ¬ relocated splices a.context.location <+: relocated splices b.context.location

variable {current : Json} {splices inner : List Splice} {x : Executed} {r : Json × Option Splice}
  {calls : List DeferredCall}

/-! ## One call -/

theorem Effect.ordered {l a b : Location} {fields : Json.Fields} {outcome : Outcome}
    (h : Effect current l fields outcome r) (ha : ∀ yields, outcome = .imported yields → ¬ l <+: a)
    (hb : ∀ yields, outcome = .imported yields → ¬ l <+: b)
    (moved : relocated r.2.toList a <+: relocated r.2.toList b) : a <+: b := by
  cases h with
  | expanded | settled => exact moved
  | @spliced yields array before after branches way node =>
    subst way
    exact Splice.prefix_of_relocate (ha yields rfl) (hb yields rfl) moved

theorem Effect.array_above {l : Location} {fields : Json.Fields} {outcome : Outcome} {s : Splice}
    (h : Effect current l fields outcome r) (spliced : r.2 = some s) : s.array <+: l := by
  cases h with
  | expanded | settled => simp at spliced
  | spliced yields branches way node =>
    obtain rfl := Option.some.inj spliced
    exact way ▸ List.prefix_append _ _

/-- A call in an object is a call on the object alone. -/
theorem enact_in_object {m : Location} {g fields : Json.Fields} {c d : Context} {outcome : Outcome}
    (there : current.at? m = some (.object g)) (location : c.location = m ++ d.location)
    (frames : d.frames = c.frames.drop m.length)
    (here : current.at? c.location = some (.object fields))
    (own : ∀ yields, outcome = .imported yields → d.location ≠ [])
    (run : outcome.enact current c = .ok r) :
    ∃ g' s, outcome.enact (.object g) d = .ok (.object g', s) ∧
      r = (current.putAt m (.object g'), s.map (under m)) ∧
        Ordered.names g' = Ordered.names g := by
  have inside : (Json.object g).at? d.location = some (.object fields) := by
    rwa [location, Json.at?_append, there] at here
  rw [enact_within there location
    (fun yields eq => Context.arraySlot?_within location frames (own yields eq)) inside] at run
  cases alone : outcome.enact (.object g) d with
  | error fault => simp [alone, Except.map] at run
  | ok result =>
    obtain ⟨y, s⟩ := result
    obtain ⟨g', rfl, names⟩ := (effect_of_enact inside alone).object inside own
    rw [alone] at run
    exact ⟨g', s, rfl, (Except.ok.inj run).symm, names⟩

theorem Standing.step (standing : Standing current splices (x.call :: calls)) (fits : x.Fits)
    (run : x.outcome.enact current (shifted splices x.call).context = .ok r) :
    Standing r.1 (splices ++ r.2.toList) calls := by
  obtain ⟨fields, here, -⟩ := standing.layers _ List.mem_cons_self
  have order := List.pairwise_cons.mp standing.ordered
  rw [← shifted_location] at here
  have effect := effect_of_enact here run
  rw [shifted_location] at effect
  constructor
  · intro p member
    obtain ⟨g, there, key⟩ := standing.layers p (List.mem_cons_of_mem _ member)
    simp only [Splice.relocated_append]
    by_cases above :
        relocated splices p.context.location <+: relocated splices x.call.context.location
    · -- The call is in the object of `p`, which keeps its names and its place.
      obtain ⟨rest, way⟩ := above
      have location : (shifted splices x.call).context.location =
          relocated splices p.context.location ++
            ((shifted splices x.call).context.within
              (relocated splices p.context.location).length).location := by
        rw [Context.location_within, shifted_location, ← way, List.drop_left]
      have own : ∀ yields, x.outcome = .imported yields →
          ((shifted splices x.call).context.within
            (relocated splices p.context.location).length).location ≠ [] := by
        intro yields eq empty
        rw [empty, List.append_nil, shifted_location] at location
        exact order.1 p member (fits yields eq) (location ▸ List.prefix_rfl)
      obtain ⟨g', s, -, rfl, names⟩ := enact_in_object there location
        (Context.frames_within (by rw [shifted_location, ← way]; simp)) here own run
      refine ⟨g', ?_, names ▸ key⟩
      rw [Splice.relocated_under_self]
      exact Json.at?_putAt there _
    · exact ⟨g, effect.outside (by rwa [shifted_location] at here) there above
        fun yields eq => order.1 p member (fits yields eq), key⟩
  · refine order.2.imp_of_mem fun {a b} ha hb apart isImport moved => apart isImport ?_
    simp only [Splice.relocated_append] at moved
    exact effect.ordered (fun yields eq => order.1 a ha (fits yields eq))
      (fun yields eq => order.1 b hb (fits yields eq)) moved

/-! ## Runs -/

theorem replay_cons {document : Json} {rest : List Executed} {result : Json × List Splice} :
    replay document splices (x :: rest) = .ok result ↔
      ∃ r, x.outcome.enact document (shifted splices x.call).context = .ok r ∧
        replay r.1 (splices ++ r.2.toList) rest = .ok result := by
  rw [replay]
  cases x.outcome.enact document (shifted splices x.call).context with
  | error fault => simp [bind, Except.bind]
  | ok r => simp [bind, Except.bind]

theorem Standing.replay {trace : List Executed} {final : Json} {splices' : List Splice}
    (standing : Standing current splices (trace.map Executed.call ++ calls))
    (fits : ∀ x ∈ trace, x.Fits) (run : replay current splices trace = .ok (final, splices')) :
    Standing final splices' calls := by
  induction trace generalizing current splices with
  | nil =>
    simp only [Expansion.replay, Except.ok.injEq, Prod.mk.injEq] at run
    obtain ⟨rfl, rfl⟩ := run
    exact standing
  | cons x trace ih =>
    obtain ⟨r, enacted, rest⟩ := replay_cons.mp run
    exact ih (standing.step (fits x List.mem_cons_self) enacted)
      (fun y member => fits y (List.mem_cons_of_mem _ member)) rest

/-- The executed calls in the node at a location, as they are found in the node alone. -/
def inside (l : Location) (trace : List Executed) : List Executed :=
  (trace.filter fun x => l.isPrefixOf x.call.context.location).map fun x =>
    { x with call := x.call.within l.length }

theorem inside_cons_of_inside {l : Location} (way : l <+: x.call.context.location)
    (trace : List Executed) :
    inside l (x :: trace) = { x with call := x.call.within l.length } :: inside l trace := by
  simp [inside, List.isPrefixOf_iff_prefix.mpr way]

theorem inside_cons_of_outside {l : Location} (way : ¬ l <+: x.call.context.location)
    (trace : List Executed) : inside l (x :: trace) = inside l trace := by
  have other : l.isPrefixOf x.call.context.location = false :=
    Bool.eq_false_iff.mpr fun eq => way (List.isPrefixOf_iff_prefix.mp eq)
  simp [inside, other]

/-- The calls in a node stand in it where the splices in it have moved them, and no other call has
come into it. -/
structure Follows (splices inner : List Splice) (l : Location) (calls : List DeferredCall) :
    Prop where
  inside : ∀ call ∈ calls, l <+: call.context.location →
    relocated splices call.context.location =
      relocated splices l ++ relocated inner (call.context.location.drop l.length)
  outside : ∀ call ∈ calls, relocated splices l <+: relocated splices call.context.location →
    l <+: call.context.location

theorem Follows.start (l : Location) (calls : List DeferredCall) : Follows [] [] l calls where
  inside call _ way := by
    obtain ⟨rest, way⟩ := way
    simp [← way]
  outside _ _ way := way

/-- A call in the node adds its splice on both sides. -/
theorem Follows.step_inside {l : Location} (follows : Follows splices inner l (x.call :: calls))
    {s : Option Splice}
    (ordered : ∀ call ∈ calls, relocated (s.map (under (relocated splices l))).toList
        (relocated splices l) <+: relocated (s.map (under (relocated splices l))).toList
          (relocated splices call.context.location) →
      relocated splices l <+: relocated splices call.context.location) :
    Follows (splices ++ (s.map (under (relocated splices l))).toList) (inner ++ s.toList) l
      calls where
  inside call member way := by
    have before := follows.inside call (List.mem_cons_of_mem _ member) way
    simp only [Splice.relocated_append, before, Splice.relocated_under,
      Splice.relocated_under_self]
  outside call member way := by
    simp only [Splice.relocated_append] at way
    exact follows.outside call (List.mem_cons_of_mem _ member) (ordered call member way)

/-- A call outside the node moves the node as a whole. -/
theorem Follows.step_outside {l : Location} (follows : Follows splices inner l (x.call :: calls))
    {s : Option Splice} (beside : ∀ t, s = some t → ¬ relocated splices l <+: t.array)
    (ordered : ∀ call ∈ calls, relocated s.toList (relocated splices l) <+:
        relocated s.toList (relocated splices call.context.location) →
      relocated splices l <+: relocated splices call.context.location) :
    Follows (splices ++ s.toList) inner l calls where
  inside call member way := by
    have before := follows.inside call (List.mem_cons_of_mem _ member) way
    simp only [Splice.relocated_append, before]
    cases s with
    | none => rfl
    | some s =>
      simp only [Option.toList_some, relocated, List.foldl_cons, List.foldl_nil]
      exact Splice.relocate_append _ (beside s rfl) _
  outside call member way := by
    simp only [Splice.relocated_append] at way
    exact follows.outside call (List.mem_cons_of_mem _ member) (ordered call member way)

variable {p : DeferredCall} {found : Json.Fields}

/-- A call in the object of a pending call. -/
theorem Standing.enact_inside {trace : List Executed}
    (standing : Standing current splices (x.call :: calls)) (fits : x.Fits) (pending : p ∈ calls)
    (follows : Follows splices inner p.context.location (x.call :: trace.map Executed.call))
    (there : current.at? (relocated splices p.context.location) = some (.object found))
    (way : p.context.location <+: x.call.context.location)
    (run : x.outcome.enact current (shifted splices x.call).context = .ok r) :
    ∃ now s, x.outcome.enact (.object found)
        (shifted inner (x.call.within p.context.location.length)).context = .ok (.object now, s) ∧
      r = (current.putAt (relocated splices p.context.location) (.object now),
        s.map (under (relocated splices p.context.location))) := by
  obtain ⟨fields, here, -⟩ := standing.layers x.call List.mem_cons_self
  have location : (shifted splices x.call).context.location =
      relocated splices p.context.location ++
        (shifted inner (x.call.within p.context.location.length)).context.location := by
    rw [shifted_location, follows.inside x.call List.mem_cons_self way, shifted_location,
      DeferredCall.within, Context.location_within]
  have frames : (shifted inner (x.call.within p.context.location.length)).context.frames =
      (shifted splices x.call).context.frames.drop
        (relocated splices p.context.location).length := by
    rw [shifted_frames, shifted_frames, Splice.length_relocated]
    exact Context.frames_within way.length_le
  have own : ∀ yields, x.outcome = .imported yields →
      (shifted inner (x.call.within p.context.location.length)).context.location ≠ [] := by
    intro yields eq empty
    rw [empty, List.append_nil, shifted_location] at location
    exact (List.pairwise_cons.mp standing.ordered).1 p pending (fits yields eq)
      (location ▸ List.prefix_rfl)
  rw [← shifted_location] at here
  obtain ⟨now, s, alone, eq, -⟩ := enact_in_object there location frames here own run
  exact ⟨now, s, alone, eq⟩

/-- A pending call leads to what the executed calls in its object make of the object alone. -/
theorem replay_inside {trace : List Executed} {final : Json} {splices' : List Splice}
    (pending : p ∈ calls) (standing : Standing current splices (trace.map Executed.call ++ calls))
    (fits : ∀ x ∈ trace, x.Fits)
    (follows : Follows splices inner p.context.location (trace.map Executed.call))
    (there : current.at? (relocated splices p.context.location) = some (.object found))
    (run : replay current splices trace = .ok (final, splices')) :
    ∃ now inner', replay (.object found) inner (inside p.context.location trace) =
        .ok (.object now, inner') ∧
      final.at? (relocated splices' p.context.location) = some (.object now) := by
  induction trace generalizing current splices inner found with
  | nil =>
    simp only [Expansion.replay, Except.ok.injEq, Prod.mk.injEq] at run
    obtain ⟨rfl, rfl⟩ := run
    exact ⟨found, inner, rfl, there⟩
  | cons x trace ih =>
    obtain ⟨r, enacted, rest⟩ := replay_cons.mp run
    have fits' := List.forall_mem_cons.mp fits
    have next := standing.step fits'.1 enacted
    have later : p ∈ trace.map Executed.call ++ calls := List.mem_append_right _ pending
    have apart : ∀ call ∈ trace.map Executed.call ++ calls, ∀ yields,
        x.outcome = .imported yields → ¬ relocated splices x.call.context.location <+:
          relocated splices call.context.location :=
      fun call member yields eq =>
        (List.pairwise_cons.mp standing.ordered).1 call member (fits'.1 yields eq)
    obtain ⟨fields, here, -⟩ := standing.layers x.call List.mem_cons_self
    have effect := effect_of_enact (by rwa [shifted_location]) enacted
    rw [shifted_location] at effect
    have ordered : ∀ call ∈ trace.map Executed.call, relocated r.2.toList
          (relocated splices p.context.location) <+:
        relocated r.2.toList (relocated splices call.context.location) →
        relocated splices p.context.location <+: relocated splices call.context.location :=
      fun call member =>
        effect.ordered (apart p later) (apart call (List.mem_append_left _ member))
    by_cases way : p.context.location <+: x.call.context.location
    · obtain ⟨now, s, alone, rfl⟩ :=
        standing.enact_inside fits'.1 later follows there way enacted
      rw [inside_cons_of_inside way]
      obtain ⟨now, inner', replayed, reached⟩ := ih next fits'.2 (follows.step_inside ordered) (by
        rw [Splice.relocated_append, Splice.relocated_under_self]
        exact Json.at?_putAt there _) rest
      exact ⟨now, inner', replay_cons.mpr ⟨_, alone, replayed⟩, reached⟩
    · have above : ¬ relocated splices p.context.location <+:
          relocated splices x.call.context.location :=
        fun above => way (follows.outside x.call List.mem_cons_self above)
      rw [inside_cons_of_outside way]
      refine ih next fits'.2 (follows.step_outside (fun t eq below => above ?_) ordered) ?_ rest
      · exact below.trans (effect.array_above eq)
      · rw [Splice.relocated_append]
        exact effect.outside here there above (apart p later)

end Expansion

end SchemaLoom
