import SchemaLoom.Proofs.Cache
import SchemaLoom.Proofs.Session.Requests

/-!
# What every step of a compilation keeps

A compilation is put together from few steps that change the workbench: a template is marked, its
old imports are forgotten, imports are recorded, a document is stored and written, a mark is taken
back. What each of them keeps is kept by the whole recursion. The property may speak of the
templates that are being compiled, the innermost first.
-/

namespace SchemaLoom

/-- The workbench with a template marked as being compiled. -/
def Workbench.marked (w : Workbench) (p : Path) : Workbench :=
  w.modifySession fun s => { s with cache := s.cache.begin_ p }

/-- The workbench with the mark of a template taken back. -/
def Workbench.unmarked (w : Workbench) (p : Path) : Workbench :=
  w.modifySession fun s => { s with cache := s.cache.abandon p }

/-- The workbench with the imports of a template forgotten. -/
def Workbench.forgotten (w : Workbench) (p : Path) : Workbench :=
  w.modifySession fun s => { s with imports := s.imports.forget p }

/-- What is known of a template. -/
def Workbench.state (w : Workbench) (p : Path) : CacheState := w.session.cache.state p

namespace Compile

variable {A : Path → Prop} {excused : BuildError → Prop} {K : List Path → Workbench → Prop}
  {p : Path} {w : Workbench}

/-! ## The recursion as equations -/

theorem within_zero_run (p : Path) (w : Workbench) :
    within 0 p w = .error (.importCycle (w.subject p).id) w := rfl

theorem within_succ_run (length : Nat) (p : Path) (w : Workbench) :
    within (length + 1) p w = match w.state p with
      | .known schema => .ok schema w
      | .cycle => .error (.importCycle (w.subject p).id) w
      | .unknown => match fresh (within length) (w.subject p) (w.marked p) with
        | .ok schema v => .ok schema v
        | .error e v => .error e (v.unmarked p) := by
  have got : session w = .ok w.session w := rfl
  unfold within Workbench.state
  rw [bind_run_ok got]
  cases w.session.cache.state p with
  | known schema => rfl
  | cycle => rfl
  | unknown =>
    simp only
    rw [bind_run_ok (modifySession_run _ w), tryCatch_run]
    unfold Workbench.subject Workbench.marked
    cases fresh (within length) ⟨p, w.session.layout.schemaId p⟩
      (w.modifySession fun s => { s with cache := s.cache.begin_ p }) <;> rfl

theorem fresh_run (compile : Path → Compile CompiledSchema) (subject : Subject) (w : Workbench) :
    fresh compile subject w = match w.files.readTemplate subject.source with
      | .error e => .error e (w.say "compile" subject.id)
      | .ok document => match expanded compile subject document (w.cleared subject) with
        | .error e v => .error e v
        | .ok schema v => match keep schema v with
          | .error e u => .error e u
          | .ok _ u => .ok schema u := by
  rw [fresh_eq, bind_run, begun_run]
  cases w.files.readTemplate subject.source with
  | error e => rfl
  | ok document =>
    simp only
    rw [bind_run]
    cases expanded compile subject document (w.cleared subject) with
    | error e v => rfl
    | ok schema v =>
      simp only
      rw [bind_run]
      cases keep schema v <;> rfl

theorem expanded_source {compile : Path → Compile CompiledSchema} {subject : Subject}
    {document : Json} {v : Workbench} {schema : CompiledSchema}
    (h : expanded compile subject document w = .ok schema v) : schema.source = subject.source :=
  ((Uniform.expanded subject document).yields h).2

/-- The ways in which the compilation of an unknown template goes on once it was read. -/
theorem fresh_eq_ok {compile : Path → Compile CompiledSchema} {subject : Subject} {v : Workbench}
    {schema : CompiledSchema} (h : fresh compile subject w = .ok schema v) :
    ∃ document u, w.files.readTemplate subject.source = .ok document ∧
      expanded compile subject document (w.cleared subject) = .ok schema u ∧
        keep schema u = .ok ⟨⟩ v := by
  rw [fresh_run] at h
  split at h
  · simp at h
  · rename_i document read
    split at h
    · simp at h
    · rename_i schema' u run
      split at h
      · simp at h
      · rename_i done u' kept
        simp only [EStateM.Result.ok.injEq] at h
        obtain ⟨rfl, rfl⟩ := h
        exact ⟨document, u, read, run, kept⟩

/-! ## The requests of a template -/

theorem relies_fresh {c : Path → Compile CompiledSchema} {subject : Subject} {document : Json}
    {d : Path} {u : Workbench} (read : w.files.readTemplate subject.source = .ok document)
    (relies : Relies (fun c => expanded c subject document) c (w.cleared subject) d u) :
    Relies (fun c => fresh c subject) c w d u := by
  intro e v
  have failed : expanded _ subject document (w.cleared subject) = _ := relies e v
  dsimp only
  rw [fresh_run, read]
  simp only [failed]

theorem requests_fresh {c : Path → Compile CompiledSchema} {subject : Subject} {d : Path}
    {u : Workbench} (asks : Requests (fun c => fresh c subject) c w d u) :
    ∃ document, w.files.readTemplate subject.source = .ok document ∧
      Relies (fun c => expanded c subject document) c (w.cleared subject) d u := by
  obtain ⟨answer, differs⟩ := asks
  dsimp only at differs
  rw [fresh_run, fresh_run] at differs
  cases read : w.files.readTemplate subject.source with
  | error e => simp [read] at differs
  | ok document =>
    refine ⟨document, rfl,
      (Uniform.expanded subject document).relies ⟨answer, fun same => differs ?_⟩⟩
    simp only [read, same]

/-! ## Properties kept by every step -/

/-- Every step but that of storing and writing a document keeps a property. -/
structure Steps (A : Path → Prop) (excused : BuildError → Prop)
    (K : List Path → Workbench → Prop) : Prop where
  finds : ∀ {P w}, K P w → Finds A w
  quiet : ∀ {P w v}, K P w → Quiet w v → K P v
  marked : ∀ {P w p}, A p → K P w → w.state p = .unknown → K (p :: P) (w.marked p)
  forgotten : ∀ {P w p}, A p → K (p :: P) w → K (p :: P) (w.forgotten p)
  linked : ∀ {P w p d}, A p → A d → K (p :: P) w → K (p :: P) (w.linked p d)
  unmarked : ∀ {P w p} (e : BuildError), A p → K (p :: P) w → excused e ∨ K P (w.unmarked p)

/-- Every step keeps a property, whatever is stored and written for a template. -/
structure Steady (A : Path → Prop) (excused : BuildError → Prop)
    (K : List Path → Workbench → Prop) : Prop extends Steps A excused K where
  keep : ∀ {P w v p schema document}, A p → K (p :: P) w →
    w.files.readTemplate p = .ok document → K (p :: P) v → schema.source = p →
    (∃ length, expanded (within length) (w.subject p) document (w.cleared (w.subject p)) =
      .ok schema v) →
    (∀ u, keep schema v = .ok ⟨⟩ u → K P u) ∧
      ∀ e u, keep schema v = .error e u → excused e ∨ K P (u.unmarked p)

/-- Requests for templates, with the room that is left for longer chains, lead to requests of the
same kind. -/
def Follows (R : Nat → Path → Workbench → Prop) : Prop :=
  ∀ {m x v d u}, R (m + 1) x v → v.state x = .unknown →
    Requests (fun c => fresh c (v.subject x)) (within m) (v.marked x) d u → R m d u

/-- Every step keeps a property, where documents are those of templates that were asked for. -/
structure Guided (R : Nat → Path → Workbench → Prop) (A : Path → Prop)
    (excused : BuildError → Prop) (K : List Path → Workbench → Prop) : Prop
    extends Steps A excused K where
  keep : ∀ {P m w v s document}, A s.source → R (m + 1) s.source w →
    w.state s.source = .unknown → K P w → w.files.readTemplate s.source = .ok document →
    expanded (within m) (w.subject s.source) document
      ((w.marked s.source).cleared (w.subject s.source)) = .ok s v →
    K (s.source :: P) v →
    (∀ u, keep s v = .ok ⟨⟩ u → K P u) ∧
      ∀ e u, keep s v = .error e u → excused e ∨ K P (u.unmarked s.source)

theorem Steady.guided (steady : Steady A excused K) (R : Nat → Path → Workbench → Prop) :
    Guided R A excused K where
  toSteps := steady.toSteps
  keep := by
    rintro P m w v s document hp - unknown hw read run hv
    exact steady.keep hp (steady.marked hp hw unknown) read hv rfl ⟨m, run⟩

theorem state_quiet {v : Workbench} (h : Quiet w v) (x : Path) : v.state x = w.state x := by
  obtain ⟨-, diagnostics, session⟩ := h
  simp [Workbench.state, session]

theorem Steps.cleared (steps : Steps A excused K) {P : List Path} (hp : A p)
    (h : K (p :: P) w) (id : String) : K (p :: P) (w.cleared ⟨p, id⟩) :=
  steps.forgotten hp (steps.quiet h (quiet_say w "compile" id))

/-- What every step keeps is kept by the recursion. -/
theorem Guided.within {R : Nat → Path → Workbench → Prop} (guided : Guided R A excused K)
    (follows : Follows R) (length : Nat) {P : List Path} (asked : R length p w) (hp : A p)
    (h : K P w) : Kept (K P) excused (fun _ => True) (within length p w) := by
  induction length generalizing P p w with
  | zero => exact .inr h
  | succ length ih =>
    rw [within_succ_run]
    cases hs : w.state p with
    | known schema => exact ⟨trivial, h⟩
    | cycle => exact .inr h
    | unknown =>
      have marked := guided.marked hp h hs
      simp only
      rw [fresh_run]
      cases hr : (w.marked p).files.readTemplate (w.subject p).source with
      | error e => exact guided.unmarked e hp (guided.quiet marked (quiet_say _ _ _))
      | ok document =>
        have subject : w.subject p = ⟨p, (w.subject p).id⟩ := rfl
        have uniform := fun A => Uniform.expanded (A := A) (w.subject p) document
        have run := (uniform A).kept_of_relied (fun _ => guided.finds) (fun _ _ => guided.quiet)
          (fun d hd v => guided.linked hp hd) (uniform _)
          (guided.cleared hp marked (w.subject p).id) fun d hd v hv relies =>
            ih (follows asked hs (relies_fresh hr relies).requests) hd (guided.linked hp hd hv)
        simp only
        rw [← subject] at run
        cases he : Compile.expanded (Compile.within length) (w.subject p) document
            ((w.marked p).cleared (w.subject p)) with
        | error e v =>
          rw [he] at run
          exact run.elim .inl (guided.unmarked e hp)
        | ok schema v =>
          rw [he] at run
          obtain ⟨⟨-, rfl⟩, kept⟩ := run
          obtain ⟨good, bad⟩ := guided.keep hp asked hs h hr he kept
          simp only
          cases hk : Compile.keep schema v with
          | error e u => exact bad e u hk
          | ok done u => exact ⟨trivial, good u hk⟩

theorem Steady.within (steady : Steady A excused K) (length : Nat) {P : List Path} (hp : A p)
    (h : K P w) : Kept (K P) excused (fun _ => True) (within length p w) :=
  (steady.guided fun _ _ _ => True).within (fun _ _ _ => trivial) length trivial hp h

theorem Steady.reached (steady : Steady A (fun _ => False) K) (length : Nat) {P : List Path}
    (hp : A p) (h : K P w) : K P (reached (Compile.within length p w)) :=
  kept_iff_reached.mp (steady.within length hp h)

/-- What speaks of neither the cache nor the import graph is kept by what changes nothing else. -/
theorem Steps.ofFiles {J : Workbench → Prop} (finds : ∀ {w}, J w → Finds A w)
    (quiet : ∀ {w v}, J w → Quiet w v → J v)
    (rest : ∀ {w} (cache : Cache) (imports : Dependencies), J w →
      J (w.modifySession fun s => { s with cache, imports })) :
    Steps A (fun _ => False) fun _ w => J w where
  finds := finds
  quiet := quiet
  marked _ h _ := rest _ _ h
  forgotten _ h := rest _ _ h
  linked _ _ h := rest _ _ h
  unmarked _ _ h := .inr (rest _ _ h)

theorem Steady.ofFiles {J : Workbench → Prop} (finds : ∀ {w}, J w → Finds A w)
    (quiet : ∀ {w v}, J w → Quiet w v → J v)
    (rest : ∀ {w} (cache : Cache) (imports : Dependencies), J w →
      J (w.modifySession fun s => { s with cache, imports }))
    (keep : ∀ {w v schema document}, A schema.source → J w →
      w.files.readTemplate schema.source = .ok document → J v →
      (∃ length, expanded (Compile.within length) (w.subject schema.source) document
        (w.cleared (w.subject schema.source)) = .ok schema v) →
      J (Compile.reached (Compile.keep schema v))) :
    Steady A (fun _ => False) fun _ w => J w where
  toSteps := .ofFiles finds quiet rest
  keep := by
    rintro P w v p schema document hp hw read hv rfl run
    have kept := keep hp hw read hv run
    constructor
    · intro u hu
      rwa [hu] at kept
    · intro e u hu
      rw [hu] at kept
      exact .inr (rest _ _ kept)

end Compile

end SchemaLoom
