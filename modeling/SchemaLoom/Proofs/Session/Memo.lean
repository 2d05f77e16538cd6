import SchemaLoom.Proofs.Session.Settled

/-!
# The cache is transparent

A template is compiled on behalf of those that are being compiled. Either it compiles without them,
or neither it nor any of them compiles at all: a template that compiles asks only for templates that
compile without it. In the first case the memoized recursion yields its document, in the second it
fails, whatever is stored already. An error on the output tree ends the comparison.
-/

namespace SchemaLoom

open Compile

variable {A : Path → Prop} {S T : Place} {base w v u : Workbench} {P : List Path} {p d x : Path}

/-- All that was stored between two workbenches is reached from a template. -/
def Stored (A : Path → Prop) (base : Workbench) (p : Path) (w v : Workbench) : Prop :=
  ∀ x, A x → v.Knows x → w.Knows x ∨ Reach A base p x

/-- Templates that do not compile, with all that they ask for. -/
structure Stuck (A : Path → Prop) (base : Workbench) (P : List Path) (v : Workbench)
    (F : Path → Prop) : Prop where
  bad : ∀ x, F x → ¬ Good base x
  asks : ∀ x, F x → ∀ d, A d → Asks base x d → v.Knows d ∨ F d ∨ d ∈ P

/-- How a template fits those that are being compiled. -/
def Fits (base : Workbench) (P : List Path) (p : Path) : Prop :=
  (∃ s, Compiles base (· ∈ P) p s) ∨ ¬ Good base p ∧ ∀ x ∈ P, ¬ Good base x

/-- The ways in which the compilation of a template ends. -/
inductive Outcome (A : Path → Prop) (T : Place) (base : Workbench) (P : List Path) (w : Workbench)
    (p : Path) : EStateM.Result BuildError Workbench CompiledSchema → Prop where
  | ok {s : CompiledSchema} {v : Workbench} : Compiles base (fun _ => False) p s →
      v.state p = .known s → Settled A T base P v → Stored A base p w v →
      Outcome A T base P w p (.ok s v)
  | error {e : BuildError} {v : Workbench} {F : Path → Prop} : ¬ Good base p →
      Settled A T base P v → Stored A base p w v → Stuck A base P v F → p ∈ P ∨ F p →
      Outcome A T base P w p (.error e v)
  | fault {e : BuildError} {v : Workbench} : base.session.layout.OutputFault e →
      Settled A T base P v → Outcome A T base P w p (.error e v)

theorem Fits.nil (base : Workbench) (p : Path) : Fits base [] p := by
  by_cases good : Good base p
  · obtain ⟨s, hs⟩ := good
    exact .inl ⟨s, hs.avoids fun x mem => by simp at mem⟩
  · exact .inr ⟨good, by simp⟩

theorem Stored.refl : Stored A base p w w := fun _ _ => .inl

theorem Stuck.none (v : Workbench) : Stuck A base P v fun _ => False :=
  ⟨fun _ => False.elim, fun _ h => False.elim h⟩

/-! ## The expansion of one template -/

/-- The expansion of `p` on its own and as part of the recursion: both asked for the same, and what
they asked for is stored. -/
structure Alongside (A : Path → Prop) (T : Place) (base : Workbench) (P : List Path)
    (w : Workbench) (p : Path) (v u : Workbench) : Prop where
  unchanged : Unchanged T base v
  settled : Settled A T base (p :: P) u
  asked : ∀ d, A d → (Asked (base.subject p) v d ↔ Asked (base.subject p) u d)
  known : ∀ d, A d → Asked (base.subject p) v d → d = p ∨ u.Knows d
  stored : ∀ x, A x → u.Knows x → w.Knows x ∨
    ∃ d, A d ∧ Asked (base.subject p) v d ∧ Reach A base d x

/-- Both expansions have failed. -/
structure Halted (A : Path → Prop) (T : Place) (base : Workbench) (P : List Path) (w : Workbench)
    (p : Path) (v u : Workbench) : Prop where
  settled : Settled A T base (p :: P) u
  stored : ∀ x, A x → u.Knows x → w.Knows x ∨
    ∃ d, A d ∧ Asked (base.subject p) v d ∧ Reach A base d x
  stuck : ∃ F, Stuck A base (p :: P) u F ∧
    ∀ d, A d → Asked (base.subject p) v d → u.Knows d ∨ F d ∨ d ∈ p :: P

theorem Alongside.halted (h : Alongside A T base P w p v u) : Halted A T base P w p v u := by
  refine ⟨h.settled, h.stored, fun _ => False, .none u, fun d hd asked => ?_⟩
  rcases h.known d hd asked with rfl | known
  · exact .inr (.inr List.mem_cons_self)
  · exact .inl known

/-- The two expansions are compared while both go on; if `excused` then a template that is not
in the table ends the comparison. -/
def alongside (A : Path → Prop) (T : Place) (base : Workbench) (P : List Path) (w : Workbench)
    (p : Path) (excused : Prop) : Coupling where
  related := Alongside A T base P w p
  failed := Halted A T base P w p
  left _ := excused
  right e u := base.session.layout.OutputFault e ∧ Settled A T base (p :: P) u

theorem alongside_stable (setting : Setting A S T base) (excused : Prop) :
    (alongside A T base P w p excused).Stable SameView A where
  view h := (setting.sound.sameView h.unchanged).symm.trans
    (setting.sound.sameView h.settled.unchanged)
  finds h := setting.finds.sameView (setting.sound.sameView h.unchanged)
  quiet := by
    intro v u v' u' h hv hu
    have knows : ∀ x, u'.Knows x ↔ u.Knows x := fun x => by
      simp [Workbench.Knows, state_quiet hu]
    refine ⟨h.unchanged.quiet hv, h.settled.quiet hu, fun d hd => ?_, fun d hd asked => ?_,
      fun x hx hk => ?_⟩
    · rw [asked_quiet hv, asked_quiet hu]
      exact h.asked d hd
    · rw [asked_quiet hv] at asked
      exact (h.known d hd asked).imp_right (knows d).mpr
    · refine (h.stored x hx ((knows x).mp hk)).imp_right ?_
      rintro ⟨d, hd, asked, reach⟩
      exact ⟨d, hd, (asked_quiet hv).mpr asked, reach⟩
  failed := Alongside.halted

/-- A request of the expansion, answered from a table and by the recursion. -/
theorem alongside_call (setting : Setting A S T base) {excused : Prop}
    {known : Path → Option CompiledSchema} {length : Nat} (hp : A p)
    (ih : ∀ d u, A d → Settled A T base (p :: P) u → Fits base (p :: P) d →
      Outcome A T base (p :: P) u d (within length d u))
    (table : ∀ d, A d → (∃ t, known d = some t ∧ Compiles base (· ∈ p :: P) d t) ∨
      known d = none ∧ (excused ∨ ¬ Good base d ∧ ∀ x ∈ p :: P, ¬ Good base x))
    (hd : A d) (h : Alongside A T base P w p v u) :
    Coupled (alongside A T base P w p excused) (fun _ => True)
      (dependency (answer known) (base.subject p).source d v)
      (dependency (within length) (base.subject p).source d u) := by
  have linked : Settled A T base (p :: P) (u.linked p d) :=
    h.settled.linked setting hp List.mem_cons_self d
  have busy : (u.linked p d).state p ≠ .unknown := by
    rw [(linked.progress p hp).mpr List.mem_cons_self]
    simp
  have frozen := within_frozen length d busy
  have keeps : ∀ x, u.Knows x → (reached (within length d (u.linked p d))).Knows x := by
    rintro x ⟨s, hs⟩
    have := (within_frozen (w := u.linked p d) (x := x) length d (by simp [hs])).1
    exact ⟨s, by rw [this, state_linked, hs]⟩
  have asked : ∀ e, A e → (Asked (base.subject p) (v.linked p d) e ↔
      Asked (base.subject p) v e ∨ d = e) := fun e he => by
    rw [← setting.same_iff hd he]
    exact asked_linked_iff
  have stored : ∀ {u'}, Stored A base d (u.linked p d) u' → ∀ x, A x → u'.Knows x →
      w.Knows x ∨ ∃ e, A e ∧ Asked (base.subject p) (v.linked p d) e ∧ Reach A base e x := by
    intro u' hs x hx hk
    rcases hs x hx hk with hk | reach
    · refine (h.stored x hx hk).imp_right ?_
      rintro ⟨e, he, ask, reach⟩
      exact ⟨e, he, (asked e he).mpr (.inl ask), reach⟩
    · exact .inr ⟨d, hd, (asked d hd).mpr (.inr rfl), reach⟩
  rw [dependency_run, dependency_run, answer_run]
  change Coupled _ _ _ (within length d (u.linked p d))
  rcases table d hd with ⟨t, hk, compiles⟩ | ⟨hk, excuse | ⟨bad, allBad⟩⟩
  · have outcome := ih d _ hd linked (.inl ⟨t, compiles⟩)
    rw [hk]
    generalize within length d (u.linked p d) = r at outcome frozen keeps ⊢
    cases outcome with
    | @ok s u' compiles' now settled new =>
      obtain rfl := compiles.unique compiles'
      refine .ok trivial ⟨h.unchanged.modifySession rfl rfl rfl rfl, settled, fun e he => ?_,
        fun e he ask => ?_, stored new⟩
      · have same : Asked (base.subject p) u' e ↔ Asked (base.subject p) (u.linked p d) e :=
          or_congr_left (frozen.2 e)
        have linkedAsked : Asked (base.subject p) (u.linked p d) e ↔
            Asked (base.subject p) u e ∨ d = e := by
          rw [← setting.same_iff hd he]
          exact asked_linked_iff
        rw [same, linkedAsked, ← h.asked e he]
        exact asked e he
      · rcases (asked e he).mp ask with ask | rfl
        · exact (h.known e he ask).imp_right (keeps e)
        · exact .inr ⟨_, now⟩
    | error notGood _ _ _ _ => exact absurd compiles.good notGood
    | fault excuse settled => exact .right ⟨excuse, settled⟩
  · rw [hk]
    exact .left excuse
  · have outcome := ih d _ hd linked (.inr ⟨bad, allBad⟩)
    rw [hk]
    generalize within length d (u.linked p d) = r at outcome frozen keeps ⊢
    cases outcome with
    | ok compiles _ _ _ => exact absurd compiles.good bad
    | @error e u' F _ settled new stuck here =>
      refine .error ⟨settled, stored new, F, stuck, fun e he ask => ?_⟩
      rcases (asked e he).mp ask with ask | rfl
      · rcases h.known e he ask with rfl | known
        · exact .inr (.inr List.mem_cons_self)
        · exact .inl (keeps e known)
      · exact here.elim (fun mem => .inr (.inr mem)) fun hF => .inr (.inl hF)
    | fault excuse settled => exact .right ⟨excuse, settled⟩

/-- The two expansions of a template that was just read. -/
theorem Alongside.start (setting : Setting A S T base) (h : Settled A T base P w) (hp : A p)
    (unknown : w.state p = .unknown) :
    Alongside A T base P w p (base.cleared (base.subject p))
      ((w.marked p).cleared (base.subject p)) := by
  have marked := (h.marked setting hp unknown).quiet (quiet_say _ "compile" (base.subject p).id)
  have asked : ∀ (v : Workbench) d, A d →
      (Asked (base.subject p) (v.forgotten (base.subject p).source) d ↔ d = p) := fun v d hd => by
    rw [asked_forgotten]
    exact (setting.same_iff hp hd).trans eq_comm
  refine ⟨.modifySession ((Unchanged.refl base).quiet (quiet_say _ _ _)) rfl rfl rfl rfl,
    marked.forgotten setting hp List.mem_cons_self, fun d hd => ?_, fun d hd ask => ?_,
    fun x hx hk => ?_⟩
  · exact (asked _ d hd).trans (asked _ d hd).symm
  · exact .inl ((asked _ d hd).mp ask)
  · exact .inl (Settled.knows_of_marked (w := w) setting hp hx hk).2

theorem asks_iff {known : Path → Option CompiledSchema} {document : Json} {s : CompiledSchema}
    (good : ∀ d t, known d = some t → Compiles base (fun _ => False) d t)
    (read : base.files.readTemplate p = .ok document)
    (run : attempt base known p document = .ok s v) :
    Asks base p d ↔ Asked (base.subject p) v d := by
  obtain ⟨v', run', quiet⟩ := attempt_mono
    (fun d t hd => verdict_eq_some.mpr (good d t hd)) run
  constructor
  · rintro ⟨document', read', ask⟩
    obtain rfl := Except.ok.inj (read.symm.trans read')
    rw [run', reached_ok] at ask
    exact (asked_quiet quiet).mp ask
  · intro ask
    exact ⟨document, read, by rw [run', reached_ok]; exact (asked_quiet quiet).mpr ask⟩

/-- A template whose expansion succeeded is stored and written. -/
theorem Alongside.finish (setting : Setting A S T base) (hp : A p) (fresh : p ∉ P)
    (h : Alongside A T base P w p v u) {s : CompiledSchema} (source : s.source = p)
    {document : Json} (read : base.files.readTemplate p = .ok document)
    (compiles : Compiles base (fun _ => False) p s)
    (asks : ∀ d, Asks base p d ↔ Asked (base.subject p) v d) :
    Outcome A T base P w p (match keep s u with
      | .error e v => .error e (v.unmarked p)
      | .ok _ v => .ok s v) := by
  subst source
  have stored : Settled A T base P (u.finished s) :=
    h.settled.finished setting hp fresh rfl compiles
      (fun d hd => by rw [asks, h.asked d hd])
      (fun d hd ask => h.known d hd ((asks d).mp ask))
  have kept := setting.sound.toRooted.kept h.settled.unchanged (setting.admits _ hp) read
  have session := keep_session s u
  have settled := stored.of_session kept.1 session
  have state : ∀ x, (reached (keep s u)).state x = (u.finished s).state x := fun x => by
    obtain ⟨diagnostics, written, session⟩ := session
    simp [Workbench.state, session]
  have self : (reached (keep s u)).state s.source = .known s := by
    rw [state]
    exact Cache.state_finish_self (Path.same_self _)
  cases hk : keep s u with
  | error e v =>
    rw [hk, reached_error] at settled self
    exact .fault (kept.2 e v hk) (settled.unmarked_of_known setting hp self)
  | ok written v =>
    rw [hk, reached_ok] at settled self state
    refine .ok compiles self settled fun x hx hv => ?_
    unfold Workbench.Knows at hv
    rw [state] at hv
    rcases Settled.knows_of_finished setting hp hx hv with rfl | known
    · exact .inr .refl
    · rcases h.stored x hx known with known | ⟨d, hd, ask, reach⟩
      · exact .inl known
      · exact .inr (.head ⟨hd, (asks d).mpr ask⟩ reach)

/-- A template whose expansion failed does not compile, and it is stuck. -/
theorem Halted.finish (setting : Setting A S T base) (hp : A p) (fresh : p ∉ P)
    (h : Halted A T base P w p v u) (bad : ¬ Good base p) (e : BuildError)
    (asks : ∀ d, Asks base p d ↔ Asked (base.subject p) v d) :
    Outcome A T base P w p (.error e (u.unmarked p)) := by
  have knows : ∀ x, A x → ((u.unmarked p).Knows x ↔ u.Knows x) :=
    fun x hx => h.settled.knows_unmarked setting hp hx
  obtain ⟨F, stuck, here⟩ := h.stuck
  have more : ∀ d, A d → u.Knows d ∨ F d ∨ d ∈ p :: P →
      (u.unmarked p).Knows d ∨ (F d ∨ d = p) ∨ d ∈ P := by
    rintro d hd (hk | hF | mem)
    · exact .inl ((knows d hd).mpr hk)
    · exact .inr (.inl (.inl hF))
    · exact (List.mem_cons.mp mem).elim (fun he => .inr (.inl (.inr he))) fun mem => .inr (.inr mem)
  refine .error (F := fun x => F x ∨ x = p) bad (h.settled.unmarked setting hp fresh)
    (fun x hx hk => ?_) ⟨?_, ?_⟩ (.inr (.inr rfl))
  · rcases h.stored x hx ((knows x hx).mp hk) with hk | ⟨d, hd, ask, reach⟩
    · exact .inl hk
    · exact .inr (.head ⟨hd, (asks d).mpr ask⟩ reach)
  · rintro x (hF | rfl)
    · exact stuck.bad x hF
    · exact bad
  · rintro x (hF | rfl) d hd ask
    · exact more d hd (stuck.asks x hF d hd ask)
    · exact more d hd (here d hd ((asks d).mp ask))

/-- The expansion of a template as part of the recursion. -/
theorem expanded_outcome (setting : Setting A S T base) {length : Nat} (hp : A p) (fresh : p ∉ P)
    (ih : ∀ d u, A d → Settled A T base (p :: P) u → Fits base (p :: P) d →
      Outcome A T base (p :: P) u d (within length d u))
    {document : Json} (read : base.files.readTemplate p = .ok document) (fits : Fits base P p)
    (h : Alongside A T base P w p (base.cleared (base.subject p)) u) :
    Outcome A T base P w p (match expanded (within length) (base.subject p) document u with
      | .error e v => .error e (v.unmarked p)
      | .ok s v => match keep s v with
        | .error e v => .error e (v.unmarked p)
        | .ok _ v => .ok s v) := by
  have coupled : ∀ (known : Path → Option CompiledSchema) (excused : Prop),
      (∀ d, A d → (∃ t, known d = some t ∧ Compiles base (· ∈ p :: P) d t) ∨
        known d = none ∧ (excused ∨ ¬ Good base d ∧ ∀ x ∈ p :: P, ¬ Good base x)) →
      Coupled (alongside A T base P w p excused) (fun s => s.source = p)
        (attempt base known p document) (expanded (within length) (base.subject p) document u) :=
    fun known excused table =>
      Uniform.coupled (alongside_stable setting excused)
        (fun d hd v u h => alongside_call setting hp ih table hd h)
        ((Uniform.expanded _ document).mono fun s hs => hs.2) _ _ h
  rcases fits with ⟨s, compiles⟩ | ⟨bad, allBad⟩
  · -- The template compiles: the answers come from templates that compile without it.
    obtain ⟨known, document', v, below, read', run⟩ := compiles.unfold
    obtain rfl := Except.ok.inj (read.symm.trans read')
    have ends := coupled known True fun d _ => by
      cases hk : known d with
      | none => exact .inr ⟨rfl, .inl trivial⟩
      | some t =>
        refine .inl ⟨t, rfl, (below d t hk).mono fun x mem => ?_⟩
        exact (List.mem_cons.mp mem).elim .inr .inl
    rw [run] at ends
    have good := fun d t hd => (below d t hd).mono fun _ => False.elim
    match expanded (within length) (base.subject p) document u, ends with
    | _, .ok source alongside =>
      exact alongside.finish setting hp fresh source read
        (compiles.mono fun _ => False.elim) fun d => asks_iff good read run
    | _, .right ⟨excuse, settled⟩ => exact .fault excuse (settled.unmarked setting hp fresh)
  · -- Neither it nor what is being compiled does: the answers are the verdicts.
    have ends := coupled (verdict base) False fun d _ => by
      cases hk : verdict base d with
      | none =>
        refine .inr ⟨rfl, .inr ⟨verdict_eq_none.mp hk, fun x mem => ?_⟩⟩
        exact (List.mem_cons.mp mem).elim (fun he => he ▸ bad) (allBad x)
      | some t =>
        refine .inl ⟨t, rfl, (verdict_eq_some.mp hk).avoids fun x mem => ?_⟩
        exact (List.mem_cons.mp mem).elim (fun he => he ▸ bad) (allBad x)
    have asks : ∀ d, Asks base p d ↔
        Asked (base.subject p) (reached (attempt base (verdict base) p document)) d := by
      refine fun d => ⟨?_, fun ask => ⟨document, read, ask⟩⟩
      rintro ⟨document', read', ask⟩
      obtain rfl := Except.ok.inj (read.symm.trans read')
      exact ask
    cases run : attempt base (verdict base) p document with
    | ok s v =>
      have good : Good base p :=
        ⟨s, .intro (verdict base) id (fun d t => verdict_eq_some.mp) read run⟩
      exact absurd good bad
    | error e v =>
      rw [run] at ends asks
      match expanded (within length) (base.subject p) document u, ends with
      | _, .error halted => exact halted.finish setting hp fresh bad _ asks
      | _, .left excuse => exact absurd excuse id
      | _, .right ⟨excuse, settled⟩ => exact .fault excuse (settled.unmarked setting hp fresh)

/-- A template that cannot be read does not compile. -/
theorem unread_outcome (setting : Setting A S T base) (hp : A p) (h : Settled A T base P w)
    (unknown : w.state p = .unknown) (fresh : p ∉ P) {e : BuildError}
    (unread : w.files.readTemplate p = .error e) (id : String) :
    Outcome A T base P w p (.error e (((w.marked p).say "compile" id).unmarked p)) := by
  have never : ∀ document, base.files.readTemplate p ≠ .ok document := by
    intro document read
    have := (setting.sound.toRooted.readTemplate h.unchanged (setting.admits p hp)).mpr read
    simp [this] at unread
  have bad : ¬ Good base p := by
    rintro ⟨s, ⟨known, free, answers, read, run⟩⟩
    exact never _ read
  have said := quiet_say (w.marked p) "compile" id
  have marked := (h.marked setting hp unknown).quiet said
  refine .error (F := fun x => x = p) bad (marked.unmarked setting hp fresh) (fun x hx hk => ?_)
    ⟨?_, ?_⟩ (.inr rfl)
  · obtain ⟨s, hs⟩ := (marked.knows_unmarked setting hp hx).mp hk
    rw [state_quiet said] at hs
    exact .inl (Settled.knows_of_marked setting hp hx ⟨s, hs⟩).2
  · rintro x rfl
    exact bad
  · rintro x rfl d hd ⟨document, read, -⟩
    exact absurd read (never document)

/-- The memoized recursion agrees with what templates compile to. -/
theorem within_outcome (setting : Setting A S T base) {count : Nat}
    (bound : ∀ paths : List Path, paths.Nodup →
      (∀ x ∈ paths, A x ∧ ∃ document, base.files.readTemplate x = .ok document) →
      paths.length ≤ count)
    (length : Nat) (hp : A p) (h : Settled A T base P w) (distinct : P.Nodup)
    (read : ∀ x ∈ P, A x ∧ ∃ document, base.files.readTemplate x = .ok document)
    (enough : count + 2 ≤ length + P.length) (fits : Fits base P p) :
    Outcome A T base P w p (within length p w) := by
  induction length generalizing P p w with
  | zero =>
    have := bound P distinct read
    omega
  | succ length ih =>
    rw [within_succ_run]
    cases hs : w.state p with
    | known s =>
      exact .ok (h.good p s hp hs) hs h .refl
    | cycle =>
      have mem := (h.progress p hp).mp hs
      have bad : ¬ Good base p := by
        rcases fits with ⟨s, compiles⟩ | ⟨bad, -⟩
        · exact absurd mem compiles.not_avoid
        · exact bad
      exact .error bad h .refl (.none w) (.inl mem)
    | unknown =>
      have fresh : p ∉ P := fun mem => by simp [(h.progress p hp).mpr mem] at hs
      have marked := h.marked setting hp hs
      have files : (w.marked p).files = w.files := rfl
      simp only
      rw [fresh_run, files, h.unchanged.subject]
      have subject : (base.subject p).source = p := rfl
      rw [subject]
      cases hr : w.files.readTemplate p with
      | error e => exact unread_outcome setting hp h hs fresh hr _
      | ok document =>
        have readable :=
          (setting.sound.toRooted.readTemplate h.unchanged (setting.admits p hp)).mp hr
        have outcome := expanded_outcome setting hp fresh (fun d u hd settled fits =>
          ih hd settled (List.nodup_cons.mpr ⟨fresh, distinct⟩)
            (List.forall_mem_cons.mpr ⟨⟨hp, document, readable⟩, read⟩)
            (by rw [List.length_cons]; omega) fits) readable fits (.start setting h hp hs)
        dsimp only
        revert outcome
        cases expanded (within length) (base.subject p) document
            ((w.marked p).cleared (base.subject p)) with
        | error e v => exact id
        | ok s v =>
          dsimp only
          cases keep s v <;> exact id

end SchemaLoom
