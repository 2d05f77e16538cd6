import SchemaLoom.Proofs.Dependencies
import SchemaLoom.Proofs.Session.Uniform

/-!
# Two runs side by side

An expansion is run from two workbenches with two ways to compile imports. If every request for a
template keeps the two runs coupled, so does the whole expansion: they succeed together with the
same result or fail together, unless one of them fails in a way that ends the comparison.
-/

namespace SchemaLoom

/-- The workbench with an import recorded. -/
def Workbench.linked (w : Workbench) (importer imported : Path) : Workbench :=
  w.modifySession fun s => { s with imports := s.imports.record importer imported }

theorem Finds.of_eq {A : Path → Prop} {w v : Workbench}
    (layout : v.session.layout = w.session.layout) (files : v.files = w.files) (h : Finds A w) :
    Finds A v := by
  have sources : v.sources = w.sources := by simp [Workbench.sources, layout, files]
  exact ⟨by rw [sources]; exact h.variants, by rw [layout, files]; exact h.single⟩

theorem Finds.quiet {A : Path → Prop} {w v : Workbench} (h : Finds A w) (hq : Quiet w v) :
    Finds A v := by
  obtain ⟨files, diagnostics, session⟩ := hq
  exact h.of_eq (by rw [session]) files

theorem Finds.linked {A : Path → Prop} {w : Workbench} {p d : Path} (h : Finds A w) :
    Finds A (w.linked p d) :=
  ⟨h.variants, h.single⟩

namespace Compile

variable {V : Workbench → Workbench → Prop} {A : Path → Prop} {subject : Subject} {α : Type}

/-- What the two runs keep in common. -/
structure Coupling where
  /-- Holds of the two workbenches as long as both runs go on. -/
  related : Workbench → Workbench → Prop
  /-- Holds of them when both have failed. -/
  failed : Workbench → Workbench → Prop
  /-- The errors of the first run that end the comparison. -/
  left : BuildError → Prop
  /-- How the second run fails when that ends the comparison. -/
  right : BuildError → Workbench → Prop

inductive Coupled (S : Coupling) (Q : α → Prop) :
    EStateM.Result BuildError Workbench α → EStateM.Result BuildError Workbench α → Prop where
  | ok {a : α} {w v : Workbench} : Q a → S.related w v → Coupled S Q (.ok a w) (.ok a v)
  | error {e e' : BuildError} {w v : Workbench} : S.failed w v →
      Coupled S Q (.error e w) (.error e' v)
  | left {e : BuildError} {w : Workbench} {r : EStateM.Result BuildError Workbench α} :
      S.left e → Coupled S Q (.error e w) r
  | right {e : BuildError} {v : Workbench} {r : EStateM.Result BuildError Workbench α} :
      S.right e v → Coupled S Q r (.error e v)

/-- Looking and noting keep the coupling, and the runs cannot tell the workbenches apart. -/
structure Coupling.Stable (S : Coupling) (V : Workbench → Workbench → Prop) (A : Path → Prop) :
    Prop where
  view : ∀ {w v}, S.related w v → V w v
  finds : ∀ {w v}, S.related w v → Finds A w
  quiet : ∀ {w v w' v'}, S.related w v → Quiet w w' → Quiet v v' → S.related w' v'
  failed : ∀ {w v}, S.related w v → S.failed w v

theorem Uniform.coupled {S : Coupling} {c c' : Path → Compile CompiledSchema}
    (stable : S.Stable V A)
    (calls : ∀ d, A d → ∀ w v, S.related w v →
      Coupled S (fun _ => True) (dependency c subject.source d w)
        (dependency c' subject.source d v))
    {x : (Path → Compile CompiledSchema) → Compile α} {Q : α → Prop} (h : Uniform V A subject x Q) :
    ∀ w v, S.related w v → Coupled S Q (x c w) (x c' v) := by
  induction h with
  | pure a ha => exact fun w v related => .ok ha related
  | throw id fault => exact fun w v related => .error (stable.failed related)
  | look same _ ih =>
    intro w v related
    dsimp only
    rw [get_bind_run, get_bind_run, ← same w v (stable.view related)]
    exact ih w (stable.finds related) w v related
  | note g quiet => exact fun w v related => .ok trivial (stable.quiet related (quiet w) (quiet v))
  | call d hd => exact fun w v related => calls d hd w v related
  | @bind _ _ _ _ x _ _ _ ihx ihf =>
    intro w v related
    dsimp only
    rw [bind_run, bind_run]
    match x c w, x c' v, ihx w v related with
    | _, _, .ok ha related => exact ihf _ ha _ _ related
    | _, _, .error failed => exact .error failed
    | _, _, .left he => exact .left he
    | _, _, .right he => exact .right he

/-- The result satisfies `Q` if there is one, and whatever happens the workbench satisfies `K`,
unless the error is one that excuses it. -/
def Kept (K : Workbench → Prop) (excused : BuildError → Prop) (Q : α → Prop) :
    EStateM.Result BuildError Workbench α → Prop
  | .ok a w => Q a ∧ K w
  | .error e w => excused e ∨ K w

theorem reached_of_kept {K : Workbench → Prop} {Q : α → Prop}
    {r : EStateM.Result BuildError Workbench α} (h : Kept K (fun _ => False) Q r) :
    K (reached r) := by
  cases r with
  | ok a w => exact h.2
  | error e w => exact h.resolve_left id

theorem kept_iff_reached {K : Workbench → Prop} {r : EStateM.Result BuildError Workbench α} :
    Kept K (fun _ => False) (fun _ => True) r ↔ K (reached r) := by
  refine ⟨reached_of_kept, fun h => ?_⟩
  cases r with
  | ok a w => exact ⟨trivial, h⟩
  | error e w => exact .inr h

theorem Uniform.kept {K : Workbench → Prop} {excused : BuildError → Prop}
    {c : Path → Compile CompiledSchema} (finds : ∀ w, K w → Finds A w)
    (quiet : ∀ w v, K w → Quiet w v → K v)
    (calls : ∀ d, A d → ∀ w, K w →
      Kept K excused (fun _ => True) (dependency c subject.source d w))
    {x : (Path → Compile CompiledSchema) → Compile α} {Q : α → Prop} (h : Uniform V A subject x Q) :
    ∀ w, K w → Kept K excused Q (x c w) := by
  induction h with
  | pure a ha => exact fun w hw => ⟨ha, hw⟩
  | throw id fault => exact fun w hw => .inr hw
  | look _ _ ih =>
    intro w hw
    dsimp only
    rw [get_bind_run]
    exact ih w (finds w hw) w hw
  | note g hg => exact fun w hw => ⟨trivial, quiet w _ hw (hg w)⟩
  | call d hd => exact fun w hw => calls d hd w hw
  | @bind _ _ _ _ x _ _ _ ihx ihf =>
    intro w hw
    have first := ihx w hw
    dsimp only
    rw [bind_run]
    cases hx : x c w with
    | ok a v =>
      rw [hx] at first
      exact ihf a first.1 v first.2
    | error e v =>
      rw [hx] at first
      exact first

/-! ## Asking for templates -/

theorem dependency_run (c : Path → Compile CompiledSchema) (p d : Path) (w : Workbench) :
    dependency c p d w = c d (w.linked p d) := rfl

/-- The template asked for another one. -/
def Asked (subject : Subject) (w : Workbench) (d : Path) : Prop :=
  w.session.imports.Has subject.source d ∨ subject.source.same d = true

theorem Asked.linked {w : Workbench} {d e : Path} (h : Asked subject w d) :
    Asked subject (w.linked subject.source e) d :=
  h.imp_left fun has => Dependencies.has_record.mpr (.inl has)

theorem asked_linked (w : Workbench) (d : Path) :
    Asked subject (w.linked subject.source d) d := by
  by_cases self : subject.source.same d = true
  · exact .inr self
  · exact .inl (Dependencies.has_record.mpr (.inr ⟨by simpa using self, by simp, by simp⟩))

theorem Asked.quiet {w v : Workbench} {d : Path} (h : Asked subject w d) (hq : Quiet w v) :
    Asked subject v d := by
  obtain ⟨-, diagnostics, session⟩ := hq
  unfold Asked
  rwa [session]

/-! ## Answering from a table -/

/-- Compiling by looking up what is known. -/
def answer (known : Path → Option CompiledSchema) (path : Path) : Compile CompiledSchema :=
  match known path with
  | some schema => pure schema
  | none => throw (.importCycle path.text)

theorem answer_run (known : Path → Option CompiledSchema) (d : Path) (w : Workbench) :
    answer known d w = match known d with
      | some schema => .ok schema w
      | none => .error (.importCycle d.text) w := by
  unfold answer
  cases known d <;> rfl

theorem kept_answer {K : Workbench → Prop} {known : Path → Option CompiledSchema} {d : Path}
    {w : Workbench} (h : K (w.linked subject.source d)) :
    Kept K (fun _ => False) (fun _ => True) (dependency (answer known) subject.source d w) := by
  rw [dependency_run, answer_run]
  cases known d with
  | some schema => exact ⟨trivial, h⟩
  | none => exact .inr h

section Answered

variable {known known' : Path → Option CompiledSchema}
  {x : (Path → Compile CompiledSchema) → Compile α} {Q : α → Prop}

theorem Uniform.finds (h : Uniform V A subject x Q) {w v : Workbench} {a : α} (hw : Finds A w)
    (run : x (answer known) w = .ok a v) : Q a ∧ Finds A v := by
  have := h.kept (c := answer known) (fun _ => id) (fun _ _ hf hq => hf.quiet hq)
    (fun _ _ _ hf => kept_answer hf.linked) w hw
  rwa [run] at this

theorem Uniform.asked (h : Uniform V A subject x Q) {w v : Workbench} {a : α} (hw : Finds A w)
    (run : x (answer known) w = .ok a v) {d : Path} (hd : Asked subject w d) :
    Asked subject v d := by
  have := h.kept (K := fun w => Finds A w ∧ Asked subject w d) (c := answer known)
      (fun _ => And.left)
    (fun _ _ hk hq => ⟨hk.1.quiet hq, hk.2.quiet hq⟩)
    (fun _ _ _ hk => kept_answer (K := fun w => Finds A w ∧ Asked subject w d)
      ⟨hk.1.linked, hk.2.linked⟩) w ⟨hw, hd⟩
  rw [run] at this
  exact this.2.2

/-- Only what a template asks for matters. -/
theorem Uniform.restrict (h : Uniform V A subject x Q) : ∀ {w v : Workbench} {a : α}, Finds A w →
    x (answer known) w = .ok a v → (∀ d, A d → Asked subject v d → known d = known' d) →
    x (answer known') w = .ok a v := by
  induction h with
  | pure a ha => exact fun _ run _ => run
  | throw id fault => exact fun _ run _ => run
  | look _ _ ih => exact fun finds run agree => ih _ finds finds run agree
  | note g quiet => exact fun _ run _ => run
  | call d hd =>
    intro w v b finds run agree
    dsimp only at run ⊢
    rw [dependency_run, answer_run] at run ⊢
    cases hk : known d with
    | none => simp [hk] at run
    | some schema =>
      rw [hk] at run
      obtain ⟨rfl, rfl⟩ : schema = b ∧ w.linked subject.source d = v := by simpa using run
      rw [← agree d hd (asked_linked w d), hk]
  | bind hx hf ihx ihf =>
    intro w v b finds run agree
    obtain ⟨a, u, first, second⟩ := bind_eq_ok.mp run
    obtain ⟨ha, later⟩ := hx.finds finds first
    refine bind_eq_ok.mpr ⟨a, u, ihx finds first fun d hA hd => ?_, ihf a ha later second agree⟩
    exact agree d hA ((hf a ha).asked later second hd)

end Answered

end Compile

end SchemaLoom
