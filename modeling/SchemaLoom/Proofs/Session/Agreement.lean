import SchemaLoom.Session.Compile

/-!
# Steps of a compilation that agree

Two steps agree when from every workbench they fail with one error, or succeed with results that
are related, and reach one workbench. Steps whose results agree by equality are equal.
-/

namespace SchemaLoom

variable {α β γ δ ε : Type}

/-- Both an error, the same one, or both a result, related by `R`. -/
inductive SameOutcome (R : α → β → Prop) : Except ε α → Except ε β → Prop where
  | ok {a : α} {b : β} : R a b → SameOutcome R (.ok a) (.ok b)
  | error (e : ε) : SameOutcome R (.error e) (.error e)

namespace Compile

/-- Both reach the same workbench, with the same error or with results related by `R`. -/
inductive SameResult (R : α → β → Prop) :
    EStateM.Result BuildError Workbench α → EStateM.Result BuildError Workbench β → Prop where
  | ok {a : α} {b : β} (w : Workbench) : R a b → SameResult R (.ok a w) (.ok b w)
  | error (e : BuildError) (w : Workbench) : SameResult R (.error e w) (.error e w)

theorem SameResult.trans {R : α → β → Prop} {P : β → γ → Prop}
    {x : EStateM.Result BuildError Workbench α} {y : EStateM.Result BuildError Workbench β}
    {z : EStateM.Result BuildError Workbench γ} (first : SameResult R x y)
    (second : SameResult P y z) : SameResult (fun a c => ∃ b, R a b ∧ P b c) x z := by
  cases first with
  | ok w related => cases second with
    | ok _ further => exact .ok w ⟨_, related, further⟩
  | error e w => cases second with
    | error _ _ => exact .error e w

def Agree (R : α → β → Prop) (x : Compile α) (y : Compile β) : Prop :=
  ∀ w, SameResult R (x w) (y w)

namespace Agree

variable {R : α → β → Prop} {Q : γ → δ → Prop} {x : Compile α} {y : Compile β}

theorem pure {a : α} {b : β} (h : R a b) : Agree R (Pure.pure a) (Pure.pure b) :=
  fun w => .ok w h

theorem bind {f : α → Compile γ} {g : β → Compile δ} (first : Agree R x y)
    (next : ∀ a b, R a b → Agree Q (f a) (g b)) : Agree Q (x >>= f) (y >>= g) := by
  intro w
  change SameResult Q (EStateM.bind x f w) (EStateM.bind y g w)
  unfold EStateM.bind
  match x w, y w, first w with
  | _, _, .ok v related => exact next _ _ related v
  | _, _, .error e v => exact .error e v

theorem mono {P : α → β → Prop} (h : Agree R x y) (weaker : ∀ a b, R a b → P a b) :
    Agree P x y := by
  intro w
  match x w, y w, h w with
  | _, _, .ok v related => exact .ok v (weaker _ _ related)
  | _, _, .error e v => exact .error e v

theorem trans {P : β → γ → Prop} {z : Compile γ} (first : Agree R x y) (second : Agree P y z) :
    Agree (fun a c => ∃ b, R a b ∧ P b c) x z :=
  fun w => (first w).trans (second w)

theorem refl (x : Compile α) : Agree Eq x x := by
  intro w
  cases x w with
  | ok a v => exact .ok v rfl
  | error e v => exact .error e v

theorem eq {x y : Compile α} (h : Agree Eq x y) : x = y := by
  funext w
  match x w, y w, h w with
  | _, _, .ok v rfl => rfl
  | _, _, .error e v => rfl

theorem ofImport {id : String} {e : Except ImportFault α} {e' : Except ImportFault β}
    (h : SameOutcome R e e') : Agree R (Compile.ofImport id e) (Compile.ofImport id e') := by
  cases h with
  | ok related => exact pure related
  | error fault => exact fun w => .error _ w

theorem bind_same (effect : Compile α) {f : α → Compile γ} {g : α → Compile δ}
    (next : ∀ a, Agree Q (f a) (g a)) : Agree Q (effect >>= f) (effect >>= g) :=
  (refl effect).bind fun a _ same => same ▸ next a

theorem after {P : γ → α → Prop} (effect : Compile α) {f : α → Compile γ}
    (next : ∀ a, Agree P (f a) (Pure.pure a)) : Agree P (effect >>= f) effect := by
  simpa using bind_same effect next

theorem map_right {P : α → γ → Prop} {f : β → γ} (h : Agree R x y)
    (weaker : ∀ a b, R a b → P a (f b)) : Agree P x (y >>= fun b => Pure.pure (f b)) := by
  rw [← bind_pure x]
  exact h.bind fun a b related => pure (weaker a b related)

theorem foldlM {step : α → γ → Compile α} {step' : β → γ → Compile β}
    (keeps : ∀ a b c, R a b → Agree R (step a c) (step' b c)) (list : List γ) {a : α} {b : β}
    (start : R a b) : Agree R (list.foldlM step a) (list.foldlM step' b) := by
  induction list generalizing a b with
  | nil => exact pure start
  | cons c list ih =>
    simp only [List.foldlM_cons]
    exact (keeps a b c start).bind fun a b related => ih related

end Agree

end Compile

end SchemaLoom
