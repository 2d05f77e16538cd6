import SchemaLoom.Proofs.FileSystem.Standing
import SchemaLoom.Proofs.Session.Generation

/-!
# What a batch leaves alone

Whether or not a template fails, the inputs stay as they were and only admitted templates import
others, and only such ones. As long as none fails, the imports of a template that
was not compiled stay as they were.
-/

namespace SchemaLoom

open Compile FileSystem

variable {A : Path → Prop} {S T : Place} {base w v : Workbench} {p x : Path} {s : CompiledSchema}

/-- What every step of a compilation keeps, whether or not it succeeds. -/
structure Upheld (A : Path → Prop) (T : Place) (base w : Workbench) : Prop where
  unchanged : Unchanged T base w
  edges : w.session.imports.Joins A

namespace Upheld

theorem quiet (h : Upheld A T base w) (hq : Quiet w v) : Upheld A T base v := by
  refine ⟨h.unchanged.quiet hq, ?_⟩
  obtain ⟨-, diagnostics, session⟩ := hq
  rw [session]
  exact h.edges

theorem linked (h : Upheld A T base w) (hp : A p) (hx : A x) : Upheld A T base (w.linked p x) :=
  ⟨h.unchanged.modifySession rfl rfl rfl rfl, h.edges.record hp hx⟩

theorem forgotten (h : Upheld A T base w) (p : Path) : Upheld A T base (w.forgotten p) :=
  ⟨h.unchanged.modifySession rfl rfl rfl rfl, h.edges.subset (w.session.imports.forget_subset p)⟩

end Upheld

theorem upheld_steady (setting : Setting A S T base) :
    Steady A (fun _ => False) fun _ w => Upheld A T base w where
  finds h := setting.finds.sameView (setting.sound.sameView h.unchanged)
  quiet h hq := h.quiet hq
  marked _ h _ := ⟨h.unchanged.modifySession rfl rfl rfl rfl, h.edges⟩
  forgotten _ h := h.forgotten _
  linked hp hd h := h.linked hp hd
  unmarked _ _ h := .inr ⟨h.unchanged.modifySession rfl rfl rfl rfl, h.edges⟩
  keep := by
    rintro P w v p schema document hp hw read hv rfl -
    have read := (setting.sound.toRooted.readTemplate hw.unchanged (setting.admits _ hp)).mp read
    have kept : Upheld A T base (reached (keep schema v)) := by
      refine ⟨(setting.sound.toRooted.kept hv.unchanged (setting.admits _ hp) read).1, ?_⟩
      obtain ⟨diagnostics, written, session⟩ := keep_session schema v
      rw [session]
      exact hv.edges
    constructor
    · intro u hu
      rwa [hu] at kept
    · intro e u hu
      rw [hu] at kept
      exact .inr ⟨kept.unchanged.modifySession rfl rfl rfl rfl, kept.edges⟩

/-- The imports of templates that were not compiled are what they were. -/
structure Untouched (old : Dependencies) (P : List Path) (w : Workbench) : Prop where
  busy : ∀ q ∈ P, w.state q ≠ .unknown
  edges : ∀ x, w.state x = .unknown → ∀ d, w.session.imports.Has x d ↔ old.Has x d

namespace Untouched

variable {old : Dependencies} {P : List Path}

theorem ne_of_mem (h : Untouched old P w) {q : Path} (mem : q ∈ P)
    (unknown : w.state x = .unknown) :
    q.same x = false := by
  rw [Bool.eq_false_iff]
  intro same
  have state : w.state q = w.state x := Cache.state_congr same
  exact h.busy q mem (state.trans unknown)

theorem marked (h : Untouched old P w) (unknown : w.state p = .unknown) :
    Untouched old (p :: P) (w.marked p) := by
  have self : (w.marked p).state p = .cycle := Cache.state_begin_self (Path.same_self p)
  have other : ∀ x, p.same x = false → (w.marked p).state x = w.state x := fun x ne =>
    Cache.state_begin_of_ne ne
  constructor
  · intro q mem
    rcases List.mem_cons.mp mem with rfl | mem
    · rw [self]
      simp
    · rw [other q (Path.same_comm.trans (h.ne_of_mem mem unknown))]
      exact h.busy q mem
  · intro x hx
    have ne : p.same x = false := by
      rw [Bool.eq_false_iff]
      intro same
      have busy : (w.marked p).state x = .cycle := Cache.state_begin_self same
      simp [busy] at hx
    exact h.edges x (other x ne ▸ hx)

theorem forgotten (h : Untouched old (p :: P) w) : Untouched old (p :: P) (w.forgotten p) := by
  refine ⟨h.busy, fun x hx d => ?_⟩
  have ne : p.same x = false := h.ne_of_mem List.mem_cons_self hx
  rw [← h.edges x hx d]
  simp [Workbench.forgotten, Workbench.modifySession, Dependencies.has_forget, ne]

theorem linked (h : Untouched old (p :: P) w) (d : Path) :
    Untouched old (p :: P) (w.linked p d) := by
  refine ⟨h.busy, fun x hx e => ?_⟩
  have ne : p.same x = false := h.ne_of_mem List.mem_cons_self hx
  rw [← h.edges x hx e]
  simp [Workbench.linked, Workbench.modifySession, Dependencies.has_record, ne]

theorem finished (h : Untouched old (s.source :: P) w) : Untouched old P (w.finished s) := by
  have other : ∀ x, s.source.same x = false → (w.finished s).state x = w.state x := fun x ne =>
    Cache.state_finish_of_ne ne
  have known : ∀ x, s.source.same x = true → (w.finished s).state x = .known s := fun x same =>
    Cache.state_finish_self same
  constructor
  · intro q mem
    cases same : s.source.same q with
    | true => simp [known q same]
    | false =>
      rw [other q same]
      exact h.busy q (List.mem_cons_of_mem _ mem)
  · intro x hx
    cases same : s.source.same x with
    | true => simp [known x same] at hx
    | false =>
      rw [other x same] at hx
      exact h.edges x hx

theorem congr (h : Untouched old P w) (cache : v.session.cache = w.session.cache)
    (imports : v.session.imports = w.session.imports) : Untouched old P v := by
  have state : ∀ x, v.state x = w.state x := fun x => by rw [Workbench.state, cache]; rfl
  refine ⟨fun q mem => state q ▸ h.busy q mem, fun x hx d => ?_⟩
  rw [imports]
  exact h.edges x (state x ▸ hx) d

/-- As long as nothing fails, a template without a document was not touched. -/
theorem steady (old : Dependencies) :
    Steady (fun _ => True) (fun _ => True) (Untouched old) where
  finds _ := finds_any _
  quiet h hq := by
    obtain ⟨-, diagnostics, session⟩ := hq
    exact h.congr (by rw [session]) (by rw [session])
  marked _ h unknown := h.marked unknown
  forgotten _ h := h.forgotten
  linked _ _ h := h.linked _
  unmarked _ _ _ := .inl trivial
  keep := by
    rintro P w v p schema document - - - h rfl -
    refine ⟨fun u hu => ?_, fun e u _ => .inl trivial⟩
    obtain ⟨diagnostics, written, session⟩ := keep_session schema v
    rw [hu, reached_ok] at session
    exact h.finished.congr (by rw [session]) (by rw [session])

end Untouched

end SchemaLoom
