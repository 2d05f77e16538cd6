import SchemaLoom.Proofs.Session.Apart

/-!
# The state of a generation

While some templates are being compiled, all that is stored are documents that their templates
compile to. The import graph holds what the stored templates ask for, and all of that is stored as
well. Every step of a compilation keeps this.
-/

namespace SchemaLoom

open Compile

/-- The inputs of a generation: trees that are apart, and templates that cover all imports. -/
structure Setting (A : Path → Prop) (S T : Place) (base : Workbench) : Prop where
  sound : base.Sound S T
  admits : ∀ p, A p → Admits T p
  finds : Finds A base

/-- The document of a template is stored. -/
def Workbench.Knows (w : Workbench) (p : Path) : Prop := ∃ s, w.state p = .known s

/-- What is stored while the templates of a list are being compiled. -/
structure Settled (A : Path → Prop) (T : Place) (base : Workbench) (P : List Path)
    (w : Workbench) : Prop where
  unchanged : Unchanged T base w
  distinct : w.session.cache.Distinct
  progress : ∀ x, A x → (w.state x = .cycle ↔ x ∈ P)
  good : ∀ x s, A x → w.state x = .known s → Compiles base (fun _ => False) x s
  edges : ∀ x, A x → w.Knows x → ∀ d, A d → (Asked (base.subject x) w d ↔ Asks base x d)
  closed : ∀ x, A x → w.Knows x → ∀ d, A d → Asks base x d → w.Knows d

variable {A : Path → Prop} {S T : Place} {base w v : Workbench} {P : List Path} {p d x : Path}

theorem Setting.same_iff (h : Setting A S T base) (hp : A p) (hx : A x) :
    p.same x = true ↔ p = x := by
  constructor
  · exact fun hs => (h.admits p hp).eq_of_same (h.admits x hx) hs
  · rintro rfl
    exact Path.same_self p

theorem Setting.same_eq_false (h : Setting A S T base) (hp : A p) (hx : A x) (ne : p ≠ x) :
    p.same x = false := by
  rw [Bool.eq_false_iff]
  exact fun hs => ne ((h.same_iff hp hx).mp hs)

theorem Unchanged.subject (h : Unchanged T base w) (p : Path) : w.subject p = base.subject p := by
  simp [Workbench.subject, h.layout]

/-! ## One step of the workbench -/

theorem asked_quiet {subject : Subject} (h : Quiet w v) :
    Asked subject v d ↔ Asked subject w d :=
  ⟨fun ha => ha.quiet h.symm, fun ha => ha.quiet h⟩

@[simp] theorem state_linked : (w.linked p d).state x = w.state x := rfl

@[simp] theorem state_forgotten : (w.forgotten p).state x = w.state x := rfl

theorem asked_linked_iff {subject : Subject} {e : Path} :
    Asked subject (w.linked subject.source d) e ↔ Asked subject w e ∨ d.same e = true := by
  unfold Asked
  simp only [Workbench.linked, Workbench.modifySession, Dependencies.has_record]
  constructor
  · rintro ((h | ⟨-, -, h⟩) | h)
    · exact .inl (.inl h)
    · exact .inr h
    · exact .inl (.inr h)
  · rintro ((h | h) | h)
    · exact .inl (.inl h)
    · exact .inr h
    · cases self : subject.source.same d with
      | false => exact .inl (.inr ⟨rfl, Path.same_self _, h⟩)
      | true => exact .inr (by rw [Path.same_congr (Path.same_iff.mp self), h])

theorem asked_linked_of_ne {subject : Subject} {e : Path} (ne : p.same subject.source = false) :
    Asked subject (w.linked p d) e ↔ Asked subject w e := by
  unfold Asked
  simp [Workbench.linked, Workbench.modifySession, Dependencies.has_record, ne]

theorem asked_forgotten_of_ne {subject : Subject} {e : Path}
    (ne : p.same subject.source = false) :
    Asked subject (w.forgotten p) e ↔ Asked subject w e := by
  unfold Asked
  simp [Workbench.forgotten, Workbench.modifySession, Dependencies.has_forget, ne]

theorem asked_forgotten {subject : Subject} {e : Path} :
    Asked subject (w.forgotten subject.source) e ↔ subject.source.same e = true := by
  unfold Asked
  simp [Workbench.forgotten, Workbench.modifySession, Dependencies.has_forget]

namespace Settled

/-- All that matters is what is known and who imports whom. -/
theorem of_state (h : Settled A T base P w) (unchanged : Unchanged T base v)
    (distinct : v.session.cache.Distinct) (state : ∀ x, A x → v.state x = w.state x)
    (imports : v.session.imports = w.session.imports) : Settled A T base P v := by
  have knows : ∀ x, A x → (v.Knows x ↔ w.Knows x) := fun x hx => by
    simp [Workbench.Knows, state x hx]
  have asked : ∀ x e, Asked (base.subject x) v e ↔ Asked (base.subject x) w e := fun x e => by
    simp [Asked, imports]
  refine ⟨unchanged, distinct, fun x hx => ?_, fun x s hx hs => ?_, fun x hx hk e he => ?_,
    fun x hx hk e he asks => ?_⟩
  · rw [state x hx, h.progress x hx]
  · exact h.good x s hx (state x hx ▸ hs)
  · rw [asked]
    exact h.edges x hx ((knows x hx).mp hk) e he
  · exact (knows e he).mpr (h.closed x hx ((knows x hx).mp hk) e he asks)

theorem of_session (h : Settled A T base P w) (unchanged : Unchanged T base v)
    (session : ∃ diagnostics written, v.session = { w.session with diagnostics, written }) :
    Settled A T base P v := by
  obtain ⟨diagnostics, written, session⟩ := session
  have cache : v.session.cache = w.session.cache := by rw [session]
  exact h.of_state unchanged (cache ▸ h.distinct) (fun x _ => by simp [Workbench.state, cache])
    (by rw [session])

theorem quiet (h : Settled A T base P w) (hq : Quiet w v) : Settled A T base P v := by
  refine h.of_session (h.unchanged.quiet hq) ?_
  obtain ⟨-, diagnostics, session⟩ := hq
  exact ⟨diagnostics, w.session.written, session⟩

theorem not_knows_of_mem (h : Settled A T base P w) (hp : A p) (mem : p ∈ P) : ¬ w.Knows p := by
  rintro ⟨s, hs⟩
  have := (h.progress p hp).mpr mem
  simp [hs] at this

theorem knows_of_marked (setting : Setting A S T base) (hp : A p) (hx : A x)
    (h : (w.marked p).Knows x) : p ≠ x ∧ w.Knows x := by
  obtain ⟨s, hs⟩ := h
  have ne : p ≠ x := by
    rintro rfl
    have : (w.marked p).state p = .cycle := Cache.state_begin_self (Path.same_self p)
    simp [this] at hs
  have other : (w.marked p).state x = w.state x :=
    Cache.state_begin_of_ne (setting.same_eq_false hp hx ne)
  exact ⟨ne, s, other ▸ hs⟩

/-- Marking a template that is not known. -/
theorem marked (setting : Setting A S T base) (h : Settled A T base P w) (hp : A p)
    (unknown : w.state p = .unknown) : Settled A T base (p :: P) (w.marked p) := by
  have self : (w.marked p).state p = .cycle := Cache.state_begin_self (Path.same_self p)
  have other : ∀ x, A x → p ≠ x → (w.marked p).state x = w.state x := fun x hx ne =>
    Cache.state_begin_of_ne (setting.same_eq_false hp hx ne)
  have known : ∀ x, A x → (w.marked p).Knows x → p ≠ x ∧ w.Knows x :=
    fun x hx => knows_of_marked setting hp hx
  refine ⟨h.unchanged.modifySession rfl rfl rfl rfl, h.distinct.begin_, fun x hx => ?_,
    fun x s hx hs => ?_, fun x hx hk => h.edges x hx (known x hx hk).2,
    fun x hx hk e he asks => ?_⟩
  · by_cases hpx : p = x
    · subst hpx
      simp [self]
    · rw [other x hx hpx, h.progress x hx]
      simp [Ne.symm hpx]
  · obtain ⟨ne, -⟩ := known x hx ⟨s, hs⟩
    rw [other x hx ne] at hs
    exact h.good x s hx hs
  · obtain ⟨s, hs⟩ := h.closed x hx (known x hx hk).2 e he asks
    have ne : p ≠ e := by
      rintro rfl
      simp [unknown] at hs
    exact ⟨s, by rw [other e he ne, hs]⟩

theorem forgotten (setting : Setting A S T base) (h : Settled A T base P w) (hp : A p)
    (mem : p ∈ P) : Settled A T base P (w.forgotten p) := by
  refine ⟨h.unchanged.modifySession rfl rfl rfl rfl, h.distinct, h.progress, h.good,
    fun x hx hk e he => ?_, h.closed⟩
  have ne : p ≠ x := by
    rintro rfl
    exact h.not_knows_of_mem hx mem hk
  rw [asked_forgotten_of_ne (setting.same_eq_false hp hx ne)]
  exact h.edges x hx hk e he

theorem linked (setting : Setting A S T base) (h : Settled A T base P w) (hp : A p) (mem : p ∈ P)
    (d : Path) : Settled A T base P (w.linked p d) := by
  refine ⟨h.unchanged.modifySession rfl rfl rfl rfl, h.distinct, h.progress, h.good,
    fun x hx hk e he => ?_, h.closed⟩
  have ne : p ≠ x := by
    rintro rfl
    exact h.not_knows_of_mem hx mem hk
  rw [asked_linked_of_ne (setting.same_eq_false hp hx ne)]
  exact h.edges x hx hk e he

theorem knows_unmarked (setting : Setting A S T base) (h : Settled A T base (p :: P) w)
    (hp : A p) (hx : A x) : (w.unmarked p).Knows x ↔ w.Knows x := by
  by_cases hpx : p = x
  · subst hpx
    refine iff_of_false ?_ (h.not_knows_of_mem hp List.mem_cons_self)
    rintro ⟨s, hs⟩
    have : (w.unmarked p).state p = .unknown :=
      Cache.state_abandon_cycle h.distinct ((h.progress p hp).mpr List.mem_cons_self)
    simp [this] at hs
  · have other : (w.unmarked p).state x = w.state x :=
      Cache.state_abandon_of_ne (setting.same_eq_false hp hx hpx)
    simp [Workbench.Knows, other]

/-- Taking back the mark of a template that did not compile. -/
theorem unmarked (setting : Setting A S T base) (h : Settled A T base (p :: P) w) (hp : A p)
    (fresh : p ∉ P) : Settled A T base P (w.unmarked p) := by
  have self : (w.unmarked p).state p = .unknown :=
    Cache.state_abandon_cycle h.distinct ((h.progress p hp).mpr List.mem_cons_self)
  have other : ∀ x, A x → p ≠ x → (w.unmarked p).state x = w.state x := fun x hx ne =>
    Cache.state_abandon_of_ne (setting.same_eq_false hp hx ne)
  have known : ∀ x, A x → ((w.unmarked p).Knows x ↔ w.Knows x) :=
    fun x hx => h.knows_unmarked setting hp hx
  refine ⟨h.unchanged.modifySession rfl rfl rfl rfl, h.distinct.abandon, fun x hx => ?_,
    fun x s hx hs => ?_, fun x hx hk => h.edges x hx ((known x hx).mp hk),
    fun x hx hk e he asks =>
      (known e he).mpr (h.closed x hx ((known x hx).mp hk) e he asks)⟩
  · by_cases hpx : p = x
    · subst hpx
      simp [self, fresh]
    · rw [other x hx hpx, h.progress x hx]
      simp [Ne.symm hpx]
  · have ne : p ≠ x := by
      rintro rfl
      simp [self] at hs
    rw [other x hx ne] at hs
    exact h.good x s hx hs

theorem unmarked_of_known (setting : Setting A S T base) (h : Settled A T base P w) (hp : A p)
    {s : CompiledSchema} (known : w.state p = .known s) : Settled A T base P (w.unmarked p) := by
  refine h.of_state (h.unchanged.modifySession rfl rfl rfl rfl) h.distinct.abandon (fun x hx => ?_)
    rfl
  by_cases hpx : p = x
  · subst hpx
    rw [known]
    exact Cache.state_abandon_known known
  · exact Cache.state_abandon_of_ne (setting.same_eq_false hp hx hpx)

theorem knows_of_finished (setting : Setting A S T base) {s : CompiledSchema} (hp : A s.source)
    (hx : A x) (h : (w.finished s).Knows x) : x = s.source ∨ w.Knows x := by
  obtain ⟨t, ht⟩ := h
  by_cases hpx : s.source = x
  · exact .inl hpx.symm
  · have other : (w.finished s).state x = w.state x :=
      Cache.state_finish_of_ne (setting.same_eq_false hp hx hpx)
    exact .inr ⟨t, other ▸ ht⟩

/-- Storing the document of a template, with all that it asked for. -/
theorem finished (setting : Setting A S T base) (h : Settled A T base (p :: P) w) (hp : A p)
    (fresh : p ∉ P) {s : CompiledSchema} (source : s.source = p)
    (compiles : Compiles base (fun _ => False) p s)
    (edges : ∀ d, A d → (Asked (base.subject p) w d ↔ Asks base p d))
    (closed : ∀ d, A d → Asks base p d → d = p ∨ w.Knows d) :
    Settled A T base P (w.finished s) := by
  subst source
  have self : (w.finished s).state s.source = .known s :=
    Cache.state_finish_self (Path.same_self _)
  have other : ∀ x, A x → s.source ≠ x → (w.finished s).state x = w.state x := fun x hx ne =>
    Cache.state_finish_of_ne (setting.same_eq_false hp hx ne)
  have more : ∀ x, A x → w.Knows x → (w.finished s).Knows x := by
    rintro x hx ⟨t, ht⟩
    by_cases hpx : s.source = x
    · exact ⟨s, hpx ▸ self⟩
    · exact ⟨t, by rw [other x hx hpx, ht]⟩
  have known : ∀ x, A x → (w.finished s).Knows x → x = s.source ∨ w.Knows x :=
    fun x hx => knows_of_finished setting hp hx
  refine ⟨h.unchanged.modifySession rfl rfl rfl rfl, h.distinct.finish, fun x hx => ?_,
    fun x t hx ht => ?_, fun x hx hk => ?_, fun x hx hk e he asks => ?_⟩
  · by_cases hpx : s.source = x
    · subst hpx
      simp [self, fresh]
    · rw [other x hx hpx, h.progress x hx]
      simp [Ne.symm hpx]
  · by_cases hpx : s.source = x
    · subst hpx
      rw [self] at ht
      obtain rfl := CacheState.known.inj ht
      exact compiles
    · rw [other x hx hpx] at ht
      exact h.good x t hx ht
  · rcases known x hx hk with rfl | hk
    · exact edges
    · exact h.edges x hx hk
  · rcases known x hx hk with rfl | hk
    · rcases closed e he asks with rfl | hk
      · exact ⟨s, self⟩
      · exact more e he hk
    · exact more e he (h.closed x hx hk e he asks)

end Settled

end SchemaLoom
