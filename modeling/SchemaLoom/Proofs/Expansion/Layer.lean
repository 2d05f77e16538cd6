import SchemaLoom.Proofs.Expansion.Run
import SchemaLoom.Proofs.Location
import SchemaLoom.Proofs.Session.Agreement

/-!
# An import on its layer

Executing an import changes the document only at its layer, and the layer as direct expansion says.
The branches then go where the context says: into the slot of the array that holds the layer, or
into the layer's own `allOf`.
-/

namespace SchemaLoom.Expansion

open Compile (Agree executeImport ofImport yieldOf)

variable (compile : Path → Compile CompiledSchema) (subject : Subject)

/-- The document with a layer put in its place and the branches where the context says. -/
def settle (document : Json) (c : Context) (fields : Json.Fields)
    (collected : Option (List Json)) : Except ImportFault (Json × Option Splice) :=
  match collected with
  | none => .ok (document.putAt c.location (.object fields), none)
  | some branches => Splicing.insertBranches (document.putAt c.location (.object fields)) c branches

variable {document : Json} {l : Location} {fields : Json.Fields}

theorem layer?_of_at? (here : document.at? l = some (.object fields)) :
    Splicing.layer? document l = .ok fields := by
  simp [Splicing.layer?, here]

theorem layer?_putAt (here : ∃ v, document.at? l = some v) (fields : Json.Fields) :
    Splicing.layer? (document.putAt l (.object fields)) l = .ok fields := by
  obtain ⟨v, here⟩ := here
  exact layer?_of_at? (Json.at?_putAt here _)

theorem setLayer_putAt (fields more : Json.Fields) :
    Splicing.setLayer (document.putAt l (.object fields)) l more =
      document.putAt l (.object more) :=
  Json.putAt_putAt _ _ _ _

theorem place_putAt (here : ∃ v, document.at? l = some v) (fields : Json.Fields)
    (yielded : Splicing.Yield) :
    SameOutcome (fun d fields => d = document.putAt l (.object fields))
      (Splicing.place (document.putAt l (.object fields)) l yielded) (placed fields yielded) := by
  cases yielded with
  | branches _ => exact .ok rfl
  | nothing => exact .ok rfl
  | items key items =>
    simp only [Splicing.place, Splicing.appendItems, placed, layer?_putAt here]
    cases Ordered.get? key fields with
    | none => exact .error _
    | some v =>
      cases v with
      | array array => exact .ok (setLayer_putAt _ _)
      | _ => exact .error _

theorem finish_putAt (here : ∃ v, document.at? l = some v) (c : Context) (at_ : c.location = l)
    (fields : Json.Fields) (collected : Option (List Json)) :
    Splicing.finish (document.putAt l (.object fields)) c collected =
      settle document c (Ordered.erase Directive.importKey fields) collected := by
  subst at_
  simp only [Splicing.finish, Splicing.removeImport, layer?_putAt here, setLayer_putAt]
  cases collected <;> rfl

theorem executeImport_eq (c : Context) (here : document.at? c.location = some (.object fields))
    (arguments : Json) :
    executeImport compile subject document c arguments =
      importLayer compile subject arguments fields >>= fun r =>
        ofImport subject.id (settle document c r.1 r.2) := by
  have there : ∃ v, document.at? c.location = some v := ⟨_, here⟩
  apply Agree.eq
  simp only [executeImport, importLayer, bind_assoc, pure_bind]
  apply Agree.bind_same
  intro directives
  -- The document of the run is the layer of the direct expansion, put at its location.
  apply Agree.bind
    (R := fun run layer => run = (document.putAt c.location (.object layer.1), layer.2))
  · apply Agree.foldlM
    · rintro _ ⟨fields, collected⟩ directive rfl
      apply Agree.bind_same
      intro yielded
      apply (Agree.ofImport (place_putAt there fields yielded)).bind
      rintro _ fields rfl
      exact Agree.pure rfl
    · rw [Json.putAt_self here]
  · rintro _ ⟨fields, collected⟩ rfl
    simp only [finish_putAt there c rfl]
    exact Agree.refl _

/-! ## Where the branches go -/

theorem settle_own {c : Context} (slot : c.arraySlot? = none)
    (here : ∃ v, document.at? c.location = some v) (fields : Json.Fields)
    (collected : Option (List Json)) :
    settle document c fields collected =
      (ownBranches fields collected).map fun v => (document.putAt c.location v, none) := by
  cases collected with
  | none => rfl
  | some branches =>
    simp only [settle, Splicing.insertBranches, slot, Splicing.appendBranches, ownBranches,
      withBranches, layer?_putAt here, setLayer_putAt]
    cases Ordered.get? Splicing.allOfKey fields with
    | none => rfl
    | some v => cases v <;> rfl

/-- What an import in a slot of an array did to the array. -/
def slotSplice (array : Location) (index : Nat) (collected : Option (List Json)) : Option Splice :=
  collected.map fun branches => ⟨array, index, branches.length⟩

theorem settle_slot {c : Context} {array : Location} {before after : List Json} {v : Json}
    (slot : c.arraySlot? = some (array, before.length))
    (at_ : c.location = array ++ [.index before.length])
    (here : document.at? array = some (.array (before ++ v :: after))) (fields : Json.Fields)
    (collected : Option (List Json)) :
    settle document c fields collected =
      .ok (document.putAt array (.array (before ++ slotBranches fields collected ++ after)),
        slotSplice array before.length collected) := by
  have element : document.putAt c.location (.object fields) =
      document.putAt array (.array (before ++ .object fields :: after)) := by
    rw [at_, Json.putAt, Json.modifyAt_append_eq_putAt _ _ here]
    simp [Json.modifyAt, Json.modifyChild, List.modify_eq_take_cons_drop]
  cases collected with
  | none => simp [settle, element, slotBranches, slotSplice]
  | some branches =>
    have inside := Json.at?_putAt here (.array (before ++ .object fields :: after))
    simp only [settle, element, Splicing.insertBranches, slot, inside]
    have bound : before.length < (before ++ Json.object fields :: after).length := by simp
    rw [if_pos bound]
    change Except.ok ((document.putAt array _).putAt array _, _) = _
    simp [Splicing.replaceElement, slotBranches, slotSplice]

end SchemaLoom.Expansion
