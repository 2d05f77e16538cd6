import SchemaLoom.Session.Basic

/-!
# Running a compilation

What a step of a compilation does to a workbench, as equations.
-/

namespace SchemaLoom

theorem eq_ok_of_toOption {ε α : Type} {r : Except ε α} {a : α} (h : r.toOption = some a) :
    r = .ok a := by
  cases r with
  | ok b => exact congrArg _ (Option.some.inj h)
  | error e => cases h

theorem exists_ok_of_isSome {ε α : Type} {r : Except ε α} (h : r.toOption.isSome = true) :
    ∃ a, r = .ok a :=
  (Option.isSome_iff_exists.mp h).imp fun _ => eq_ok_of_toOption

namespace Compile

variable {α β : Type}

/-- The workbench that a run reaches. -/
def reached : EStateM.Result BuildError Workbench α → Workbench
  | .ok _ w => w
  | .error _ w => w

@[simp] theorem reached_ok (a : α) (w : Workbench) :
    reached (.ok a w : EStateM.Result BuildError Workbench α) = w := rfl

@[simp] theorem reached_error (e : BuildError) (w : Workbench) :
    reached (.error e w : EStateM.Result BuildError Workbench α) = w := rfl

theorem modifySession_run (f : Session → Session) (w : Workbench) :
    modifySession f w = .ok ⟨⟩ (w.modifySession f) := rfl

theorem bind_run (x : Compile α) (f : α → Compile β) (w : Workbench) :
    (x >>= f) w = match x w with
      | .ok a v => f a v
      | .error e v => .error e v := by
  change EStateM.bind x f w = _
  unfold EStateM.bind
  cases x w <;> rfl

theorem bind_run_ok {x : Compile α} {w v : Workbench} {a : α} (h : x w = .ok a v)
    (f : α → Compile β) : (x >>= f) w = f a v := by rw [bind_run, h]

theorem bind_run_error {x : Compile α} {w v : Workbench} {e : BuildError} (h : x w = .error e v)
    (f : α → Compile β) : (x >>= f) w = .error e v := by rw [bind_run, h]

theorem get_bind_run (f : Workbench → Compile β) (w : Workbench) : (get >>= f) w = f w w := rfl

theorem modify_bind_run (g : Workbench → Workbench) (f : PUnit → Compile β) (w : Workbench) :
    (modify g >>= f) w = f ⟨⟩ (g w) := rfl

theorem tryCatch_run (x : Compile α) (handle : BuildError → Compile α) (w : Workbench) :
    (tryCatch x handle) w = match x w with
      | .ok a v => .ok a v
      | .error e v => handle e v := by
  change EStateM.tryCatch x handle w = _
  unfold EStateM.tryCatch
  cases x w <;> rfl

/-- A run that succeeds as a whole succeeds step by step. -/
theorem bind_eq_ok {x : Compile α} {f : α → Compile β} {w w' : Workbench} {b : β} :
    (x >>= f) w = .ok b w' ↔ ∃ a v, x w = .ok a v ∧ f a v = .ok b w' := by
  rw [bind_run]
  cases x w with
  | ok a v =>
    constructor
    · exact fun h => ⟨a, v, rfl, h⟩
    · rintro ⟨_, _, ⟨⟩, h⟩
      exact h
  | error e v => simp

theorem discard_eq (x : Compile α) : discard x = x >>= fun _ => pure PUnit.unit := by
  funext w
  rw [bind_run]
  change EStateM.map (Function.const α PUnit.unit) x w = _
  unfold EStateM.map
  cases x w <;> rfl

theorem ofImport_run (id : String) (result : Except ImportFault α) (w : Workbench) :
    ofImport id result w = match result with
      | .ok a => .ok a w
      | .error fault => .error (.importing id fault) w := by
  cases result <;> rfl

theorem ofImport_eq_ok {id : String} {result : Except ImportFault α} {w v : Workbench} {a : α} :
    ofImport id result w = .ok a v ↔ result = .ok a ∧ w = v := by
  rw [ofImport_run]
  cases result <;> simp

end Compile

end SchemaLoom
