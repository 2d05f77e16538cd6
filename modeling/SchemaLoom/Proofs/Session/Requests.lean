import SchemaLoom.Proofs.Session.Compiles

/-!
# What an expansion asks for

An expansion depends on the compilation of other templates through its requests only: those whose
answer makes a difference. No error is an answer to it, so whatever goes wrong with a request goes
wrong with the whole expansion, and apart from that only an import itself can be at fault.
-/

namespace SchemaLoom.Compile

variable {V : Workbench → Workbench → Prop} {A : Path → Prop} {subject : Subject} {α β : Type}
  {c c' : Path → Compile CompiledSchema} {w v u : Workbench} {d : Path} {e : BuildError}
  {x : (Path → Compile CompiledSchema) → Compile α}
  {f : α → (Path → Compile CompiledSchema) → Compile β} {Q : α → Prop}

open Classical in
/-- Compiling with the answer to one request exchanged. -/
noncomputable def exchanged (c : Path → Compile CompiledSchema) (d : Path) (u : Workbench)
    (answer : EStateM.Result BuildError Workbench CompiledSchema) : Path → Compile CompiledSchema :=
  fun path w => if path = d ∧ w = u then answer else c path w

/-- A run that compiles templates with `c` asks for `d` on the workbench `u`: the answer makes a
difference. -/
def Requests (x : (Path → Compile CompiledSchema) → Compile α) (c : Path → Compile CompiledSchema)
    (w : Workbench) (d : Path) (u : Workbench) : Prop :=
  ∃ answer, x (exchanged c d u answer) w ≠ x c w

/-- A run that goes wrong in whatever way that request goes wrong. -/
def Relies (x : (Path → Compile CompiledSchema) → Compile α) (c : Path → Compile CompiledSchema)
    (w : Workbench) (d : Path) (u : Workbench) : Prop :=
  ∀ e v, x (exchanged c d u (.error e v)) w = .error e v

theorem exchanged_same (c : Path → Compile CompiledSchema) (d : Path) (u : Workbench) :
    exchanged c d u (c d u) = c := by
  funext path w
  unfold exchanged
  split
  · rename_i same
    rw [same.1, same.2]
  · rfl

theorem Relies.requests (h : Relies x c w d u) : Requests x c w d u := by
  by_contra unasked
  have same : ∀ answer, x (exchanged c d u answer) w = x c w := by
    simpa [Requests] using unasked
  have one : x c w = .error (.importCycle "") w := (same _).symm.trans (h _ w)
  have other : x c w = .error (.importCycle "other") w := (same _).symm.trans (h _ w)
  simp [one] at other

theorem Relies.fails (h : Relies x c w d u) (failed : c d u = .error e v) : x c w = .error e v := by
  have := h e v
  rwa [← failed, exchanged_same] at this

theorem Relies.bind (h : Relies x c w d u) : Relies (fun c => x c >>= fun a => f a c) c w d u :=
  fun e v => bind_run_error (h e v) _

/-- An expansion relies on a request or does not make it. The templates that it asks for satisfy
`A`, and it asks for them on workbenches that satisfy `K` but for the import that is recorded. -/
theorem Uniform.asked_or {K : Workbench → Prop} {excused : BuildError → Prop}
    (finds : ∀ w, K w → Finds A w) (quiet : ∀ w v, K w → Quiet w v → K v)
    (calls : ∀ d, A d → ∀ w, K w →
      Kept K excused (fun _ => True) (dependency c subject.source d w))
    (h : Uniform V A subject x Q) : ∀ w, K w →
      (∀ answer, x (exchanged c d u answer) w = x c w) ∨
        Relies x c w d u ∧ A d ∧ ∃ v, K v ∧ u = v.linked subject.source d := by
  induction h with
  | pure a ha => exact fun w _ => .inl fun _ => rfl
  | throw id fault => exact fun w _ => .inl fun _ => rfl
  | look _ _ ih => exact fun w hw => ih w (finds w hw) w hw
  | note g _ => exact fun w _ => .inl fun _ => rfl
  | call path hp =>
    intro w hw
    unfold Relies
    simp only [dependency_run, exchanged]
    by_cases same : path = d ∧ w.linked subject.source path = u
    · obtain ⟨rfl, rfl⟩ := same
      exact .inr ⟨fun _ _ => if_pos ⟨rfl, rfl⟩, hp, w, hw, rfl⟩
    · exact .inl fun _ => if_neg same
  | @bind _ _ _ _ x f hx _ ihx ihf =>
    intro w hw
    rcases ihx w hw with same | ⟨relies, rest⟩
    · have first := hx.kept finds quiet calls w hw
      cases run : x c w with
      | error e v =>
        refine .inl fun answer => ?_
        dsimp only
        rw [bind_run_error run, bind_run_error ((same answer).trans run)]
      | ok a v =>
        rw [run] at first
        rcases ihf a first.1 v first.2 with same' | ⟨relies, rest⟩
        · refine .inl fun answer => ?_
          dsimp only
          rw [bind_run_ok run, bind_run_ok ((same answer).trans run), same' answer]
        · refine .inr ⟨fun e u' => ?_, rest⟩
          dsimp only
          rw [bind_run_ok ((same _).trans run), relies e u']
    · exact .inr ⟨relies.bind, rest⟩

theorem Uniform.requested {K : Workbench → Prop} {excused : BuildError → Prop}
    (finds : ∀ w, K w → Finds A w) (quiet : ∀ w v, K w → Quiet w v → K v)
    (calls : ∀ d, A d → ∀ w, K w →
      Kept K excused (fun _ => True) (dependency c subject.source d w))
    (h : Uniform V A subject x Q) (hw : K w) (asks : Requests x c w d u) :
    A d ∧ ∃ v, K v ∧ u = v.linked subject.source d := by
  obtain ⟨answer, differs⟩ := asks
  exact ((h.asked_or finds quiet calls w hw).resolve_left fun same => differs (same answer)).2

section Anywhere

variable (h : Uniform V (fun _ => True) subject x Q)
include h

theorem Uniform.unasked_or (c : Path → Compile CompiledSchema) (w : Workbench) (d : Path)
    (u : Workbench) :
    (∀ answer, x (exchanged c d u answer) w = x c w) ∨ Relies x c w d u := by
  have answers : ∀ d, True → ∀ w, True →
      Kept (fun _ => True) (fun _ => True) (fun _ => True) (dependency c subject.source d w) := by
    intro d _ w _
    cases dependency c subject.source d w with
    | ok s v => exact ⟨trivial, trivial⟩
    | error e v => exact .inl trivial
  exact (h.asked_or (fun w _ => finds_any w) (fun _ _ _ _ => trivial) answers w trivial).imp_right
    And.left

theorem Uniform.relies (asks : Requests x c w d u) : Relies x c w d u := by
  obtain ⟨answer, differs⟩ := asks
  exact (h.unasked_or c w d u).resolve_left fun same => differs (same answer)

theorem Uniform.relies_bind {a : α} (run : x c w = .ok a v) (rest : Relies (f a) c v d u) :
    Relies (fun c => x c >>= fun a => f a c) c w d u := by
  rcases h.unasked_or c w d u with same | relies
  · intro e u'
    dsimp only
    rw [bind_run_ok ((same _).trans run), rest e u']
  · exact relies.bind

end Anywhere

/-- An expansion that fails does so for an import of its own or with the error of a request. -/
theorem Uniform.fault_or (h : Uniform V (fun _ => True) subject x Q) {e : BuildError} :
    ∀ {w v : Workbench}, x c w = .error e v → (∃ id fault, e = .importing id fault) ∨
      ∃ d u, Relies x c w d u ∧ c d u = .error e v := by
  induction h with
  | pure a _ =>
    intro w v run
    cases run
  | throw id fault =>
    intro w v run
    obtain ⟨rfl, -⟩ := EStateM.Result.error.inj run
    exact .inl ⟨id, fault, rfl⟩
  | look _ _ ih => exact fun {w v} run => ih w (finds_any w) run
  | note g _ =>
    intro w v run
    cases run
  | call path _ =>
    refine fun {w v} run => .inr ⟨path, w.linked subject.source path, fun e v => ?_, run⟩
    exact if_pos ⟨rfl, rfl⟩
  | @bind _ _ _ _ x f hx _ ihx ihf =>
    intro w v run
    cases first : x c w with
    | error e' v' =>
      obtain ⟨rfl, rfl⟩ := EStateM.Result.error.inj ((bind_run_error first _).symm.trans run)
      exact (ihx first).imp_right fun ⟨d, u, relies, failed⟩ => ⟨d, u, relies.bind, failed⟩
    | ok a u =>
      exact (ihf a (hx.yields first) ((bind_run_ok first _).symm.trans run)).imp_right
        fun ⟨d, u', relies, failed⟩ => ⟨d, u', hx.relies_bind first relies, failed⟩

/-- Two ways to compile templates that give the same answers to the requests of an expansion lead to
the same result. -/
theorem Uniform.congr (h : Uniform V (fun _ => True) subject x Q) : ∀ {w : Workbench},
    (∀ d u, Relies x c w d u → c' d u = c d u) → x c' w = x c w := by
  induction h with
  | pure a _ => exact fun _ => rfl
  | throw id fault => exact fun _ => rfl
  | look _ _ ih => exact fun {w} same => ih w (finds_any w) same
  | note g _ => exact fun _ => rfl
  | call path _ =>
    intro w same
    exact same path (w.linked subject.source path) fun e v => if_pos ⟨rfl, rfl⟩
  | @bind _ _ _ _ x f hx _ ihx ihf =>
    intro w same
    have first := ihx fun d u relies => same d u relies.bind
    dsimp only
    cases run : x c w with
    | error e v => rw [bind_run_error run, bind_run_error (first.trans run)]
    | ok a v =>
      rw [bind_run_ok run, bind_run_ok (first.trans run)]
      exact ihf a (hx.yields run) fun d u relies => same d u (hx.relies_bind run relies)

open Classical in
/-- Compiling what a run relies on, and failing on everything else. -/
noncomputable def relied (x : (Path → Compile CompiledSchema) → Compile α)
    (c : Path → Compile CompiledSchema) (w : Workbench) : Path → Compile CompiledSchema :=
  fun d u => if Relies x c w d u then c d u else .error (.importCycle "") u

/-- Whatever the requests keep that an expansion relies on, it keeps itself. -/
theorem Uniform.kept_of_relied {K : Workbench → Prop} {excused : BuildError → Prop}
    (finds : ∀ w, K w → Finds A w) (quiet : ∀ w v, K w → Quiet w v → K v)
    (linked : ∀ d, A d → ∀ w, K w → K (w.linked subject.source d))
    (h : Uniform V A subject x Q) (anywhere : Uniform V (fun _ => True) subject x Q) (hw : K w)
    (calls : ∀ d, A d → ∀ v, K v → Relies x c w d (v.linked subject.source d) →
      Kept K excused (fun _ => True) (c d (v.linked subject.source d))) :
    Kept K excused Q (x c w) := by
  -- Other requests are not made, so whatever answers them will do.
  have same : x (relied x c w) w = x c w := anywhere.congr fun d u relies => if_pos relies
  rw [← same]
  refine h.kept finds quiet (fun d hd v hv => ?_) w hw
  rw [dependency_run, relied]
  split
  · rename_i relies
    exact calls d hd v hv relies
  · exact .inr (linked d hd v hv)

end SchemaLoom.Compile
