import SchemaLoom.Proofs.Resolution
import SchemaLoom.Proofs.Session.Settled

/-!
# The outputs of a generation

Where no two templates share an output and no write fails, the file system is what it was, with an
output for every stored document that is exported. An output is not lost to a later one: the
templates differ, and the place of one is never a directory of the other.
-/

namespace SchemaLoom

open SchemaLoom.Path FileSystem Compile

variable {A : Path → Prop} {S T : Place} {base w v : Workbench} {P : List Path} {p x : Path}
  {s : CompiledSchema} {o q : Place}

/-- Templates with the same output are the same. -/
def NoSharing (A : Path → Prop) (l : Layout) : Prop :=
  ∀ x y, A x → A y → (l.outputFor x).same (l.outputFor y) = true → x = y

/-- The document of a template is stored, it is exported, and its output has a place. -/
structure Exports (A : Path → Prop) (base w : Workbench) (x : Path) (s : CompiledSchema)
    (o : Place) : Prop where
  admitted : A x
  known : w.state x = .known s
  exported : s.isExported = true
  place : (base.session.layout.outputFor x).LeadsTo o

/-- The files as they were, with the outputs of stored documents. -/
structure Laid (A : Path → Prop) (base w : Workbench) : Prop where
  places : ∀ x s, A x → w.state x = .known s → s.isExported = true → ∃ o, Exports A base w x s o
  written : ∀ x s o, Exports A base w x s o →
    w.files.entry? o = some (.file (.text (base.textOf s)))
  above : ∀ x s o m, Exports A base w x s o → m <+: o → m ≠ o →
    w.files.entry? m = some .directory
  kept : ∀ q, (∀ x s o, Exports A base w x s o → ¬ q <+: o) →
    w.files.entry? q = base.files.entry? q

theorem SameView.textOf (view : SameView w v) (pretty : v.session.isPretty = w.session.isPretty)
    (s : CompiledSchema) : v.textOf s = w.textOf s := by
  have alike : Resolver.Alike ⟨v.session.layout, v.files, s.source⟩
      ⟨w.session.layout, w.files, s.source⟩ :=
    ⟨view.layout.symm, rfl, fun relative => (view.single relative).symm⟩
  simp only [Workbench.textOf, Resolver.resolve, alike.resolveNode, pretty]

theorem Workbench.Sound.textOf (sound : base.Sound S T) (h : Unchanged T base w)
    (s : CompiledSchema) : w.textOf s = base.textOf s :=
  (sound.sameView h).textOf h.isPretty s

theorem Exports.congr (h : Exports A base w x s o)
    (known : v.state x = .known s) : Exports A base v x s o :=
  ⟨h.admitted, known, h.exported, h.place⟩

theorem Laid.congr (h : Laid A base w) (files : v.files = w.files)
    (known : ∀ x s, A x → (v.state x = .known s ↔ w.state x = .known s)) : Laid A base v := by
  have exports : ∀ x s o, Exports A base v x s o ↔ Exports A base w x s o := fun x s o =>
    ⟨fun h => h.congr ((known x s h.admitted).mp h.known),
      fun h => h.congr ((known x s h.admitted).mpr h.known)⟩
  constructor
  · intro x s hx hs he
    obtain ⟨o, ho⟩ := h.places x s hx ((known x s hx).mp hs) he
    exact ⟨o, (exports x s o).mpr ho⟩
  · intro x s o ho
    rw [files]
    exact h.written x s o ((exports x s o).mp ho)
  · intro x s o m ho
    rw [files]
    exact h.above x s o m ((exports x s o).mp ho)
  · intro q hq
    rw [files]
    exact h.kept q fun x s o ho => hq x s o ((exports x s o).mpr ho)

/-- One more document is stored, and its output is written. -/
theorem Laid.write (distinct : NoSharing A base.session.layout)
    (h : Laid A base w) {schema : CompiledSchema} (hp : A p) (unknown : ¬ w.Knows p)
    (exported : schema.isExported = true) (place : (base.session.layout.outputFor p).LeadsTo o)
    (inside : Inside T o) (written : Written o (base.textOf schema) w.files v.files)
    (self : v.state p = .known schema) (other : ∀ x, A x → p ≠ x → v.state x = w.state x) :
    Laid A base v := by
  have old : ∀ {x t o'}, Exports A base v x t o' → p ≠ x → Exports A base w x t o' :=
    fun h ne => h.congr (other _ h.admitted ne ▸ h.known)
  have new : ∀ {x t o'}, Exports A base w x t o' → p ≠ x := by
    rintro x t o' h rfl
    exact unknown ⟨t, h.known⟩
  have here : ∀ {t o'}, Exports A base v p t o' → t = schema ∧ o' = o := fun h =>
    ⟨CacheState.known.inj (h.known.symm.trans self), h.place.unique place⟩
  -- Neither is the new output in the way of an old one, nor the other way round.
  have apart : ∀ {x t o'}, Exports A base w x t o' → ¬ o' <+: o := by
    intro x t o' ho above
    have file := h.written x t o' ho
    by_cases he : o' = o
    · subst he
      exact new ho (distinct p x hp ho.admitted ((place.same_iff ho.place).mpr rfl))
    · rcases written.before o' above he with hn | hd
      · simp [file] at hn
      · simp [file] at hd
  constructor
  · intro x t hx ht he
    by_cases hpx : p = x
    · subst hpx
      exact ⟨o, hx, ht, he, place⟩
    · obtain ⟨o', ho⟩ := h.places x t hx (other x hx hpx ▸ ht) he
      exact ⟨o', ho.congr ht⟩
  · intro x t o' ho
    by_cases hpx : p = x
    · subst hpx
      obtain ⟨rfl, rfl⟩ := here ho
      exact written.file
    · have ho := old ho hpx
      rw [written.kept o' (apart ho)]
      exact h.written x t o' ho
  · intro x t o' m ho hm ne
    by_cases hpx : p = x
    · subst hpx
      obtain ⟨rfl, rfl⟩ := here ho
      exact written.directories m hm ne
    · exact (written.grown T inside).keepsDirectory (h.above x t o' m (old ho hpx) hm ne)
  · intro q hq
    rw [written.kept q (hq p schema o ⟨hp, self, exported, place⟩)]
    exact h.kept q fun x t o' ho => hq x t o' (ho.congr ((other x ho.admitted (new ho)) ▸ ho.known))

/-- One more document is stored that is not exported. -/
theorem Laid.store (h : Laid A base w) (unknown : ¬ w.Knows p) {schema : CompiledSchema}
    (internal : schema.isExported = false) (files : v.files = w.files)
    (self : v.state p = .known schema) (other : ∀ x, A x → p ≠ x → v.state x = w.state x) :
    Laid A base v := by
  have exports : ∀ {x t o}, Exports A base v x t o ↔ Exports A base w x t o := by
    intro x t o
    by_cases hpx : p = x
    · subst hpx
      constructor
      · intro ho
        obtain rfl := CacheState.known.inj (ho.known.symm.trans self)
        exact absurd ho.exported (by simp [internal])
      · exact fun ho => absurd ⟨t, ho.known⟩ unknown
    · exact ⟨fun ho => ho.congr (other x ho.admitted hpx ▸ ho.known),
        fun ho => ho.congr ((other x ho.admitted hpx).trans ho.known)⟩
  constructor
  · intro x t hx ht he
    have ne : p ≠ x := by
      rintro rfl
      obtain rfl := CacheState.known.inj (ht.symm.trans self)
      simp [internal] at he
    obtain ⟨o, ho⟩ := h.places x t hx (other x hx ne ▸ ht) he
    exact ⟨o, exports.mpr ho⟩
  · intro x t o ho
    rw [files]
    exact h.written x t o (exports.mp ho)
  · intro x t o m ho
    rw [files]
    exact h.above x t o m (exports.mp ho)
  · intro q hq
    rw [files]
    exact h.kept q fun x t o ho => hq x t o (exports.mpr ho)

/-- The files of a generation while the templates of a list are being compiled. -/
structure Laying (A : Path → Prop) (T : Place) (base : Workbench) (P : List Path)
    (w : Workbench) : Prop where
  unchanged : Unchanged T base w
  distinct : w.session.cache.Distinct
  busy : ∀ q ∈ P, A q ∧ w.state q = .cycle
  nodup : P.Nodup
  laid : Laid A base w

namespace Laying

variable (setting : Setting A S T base)
include setting

theorem marked (h : Laying A T base P w) (hp : A p) (unknown : w.state p = .unknown) :
    Laying A T base (p :: P) (w.marked p) := by
  have self : (w.marked p).state p = .cycle := Cache.state_begin_self (Path.same_self p)
  have other : ∀ x, A x → p ≠ x → (w.marked p).state x = w.state x := fun x hx ne =>
    Cache.state_begin_of_ne (setting.same_eq_false hp hx ne)
  have fresh : p ∉ P := fun mem => by simp [(h.busy p mem).2] at unknown
  refine ⟨h.unchanged.modifySession rfl rfl rfl rfl, h.distinct.begin_,
    List.forall_mem_cons.mpr ⟨⟨hp, self⟩, fun q mem => ⟨(h.busy q mem).1, ?_⟩⟩,
    List.nodup_cons.mpr ⟨fresh, h.nodup⟩, h.laid.congr rfl fun x s hx => ?_⟩
  · rw [other q (h.busy q mem).1 fun he => fresh (he ▸ mem), (h.busy q mem).2]
  · by_cases hpx : p = x
    · subst hpx
      simp [self, unknown]
    · rw [other x hx hpx]

theorem unmarked (h : Laying A T base (p :: P) w) (hp : A p) :
    Laying A T base P (w.unmarked p) := by
  have self : (w.unmarked p).state p = .unknown :=
    Cache.state_abandon_cycle h.distinct (h.busy p List.mem_cons_self).2
  have other : ∀ x, A x → p ≠ x → (w.unmarked p).state x = w.state x := fun x hx ne =>
    Cache.state_abandon_of_ne (setting.same_eq_false hp hx ne)
  obtain ⟨fresh, nodup⟩ := List.nodup_cons.mp h.nodup
  refine ⟨h.unchanged.modifySession rfl rfl rfl rfl, h.distinct.abandon, fun q mem => ?_, nodup,
    h.laid.congr rfl fun x s hx => ?_⟩
  · obtain ⟨hq, busy⟩ := h.busy q (List.mem_cons_of_mem p mem)
    exact ⟨hq, by rw [other q hq fun he => fresh (he ▸ mem), busy]⟩
  · by_cases hpx : p = x
    · subst hpx
      simp [self, (h.busy p List.mem_cons_self).2]
    · rw [other x hx hpx]

theorem keep (distinct : NoSharing A base.session.layout) {schema : CompiledSchema}
    (h : Laying A T base (schema.source :: P) w) {document : Json}
    (read : base.files.readTemplate schema.source = .ok document)
    (run : Compile.keep schema w = .ok ⟨⟩ v) : Laying A T base P v := by
  obtain ⟨hp, busy⟩ := h.busy _ List.mem_cons_self
  obtain ⟨fresh, nodup⟩ := List.nodup_cons.mp h.nodup
  have unknown : ¬ w.Knows schema.source := by
    rintro ⟨s, hs⟩
    simp [busy] at hs
  have kept := (setting.sound.toRooted.kept h.unchanged (setting.admits _ hp) read).1
  obtain ⟨diagnostics, written, session⟩ := keep_session schema w
  rw [run, reached_ok] at kept session
  have state : ∀ x, v.state x = (w.finished schema).state x := fun x => by
    simp [Workbench.state, session]
  have self : v.state schema.source = .known schema := by
    rw [state]
    exact Cache.state_finish_self (Path.same_self _)
  have other : ∀ x, A x → schema.source ≠ x → v.state x = w.state x := fun x hx ne => by
    rw [state]
    exact Cache.state_finish_of_ne (setting.same_eq_false hp hx ne)
  refine ⟨kept, ?_, fun q mem => ?_, nodup, ?_⟩
  · rw [session]
    exact h.distinct.finish
  · obtain ⟨hq, busy⟩ := h.busy q (List.mem_cons_of_mem _ mem)
    exact ⟨hq, by rw [other q hq fun he => fresh (he ▸ mem), busy]⟩
  · rw [keep_run] at run
    split at run
    · rename_i exported
      have stored : Unchanged T base (w.finished schema) :=
        h.unchanged.modifySession rfl rfl rfl rfl
      obtain ⟨a, c, hc, hend⟩ := setting.sound.toRooted.output (setting.admits _ hp) read
      have wrote := write_run schema (w.finished schema)
      rw [run] at wrote
      have output : (w.finished schema).outputOf schema =
          base.session.layout.outputFor schema.source := by
        rw [Workbench.outputOf, stored.layout]
      cases wrote with
      | written ready quiet done =>
        rw [output] at ready done
        rw [setting.sound.textOf stored] at done
        rcases hend with rfl | ⟨n, rfl⟩
        · exact absurd done (writeFile_up hc)
        · have place : (base.session.layout.outputFor schema.source).LeadsTo (T ++ a ++ [n]) := by
            simpa [LeadsTo] using hc
          have inside : Inside T (T ++ a ++ [n]) := Inside.iff.mpr (by cases a <;> simp)
          exact h.laid.write distinct hp unknown exported place inside
            (written_of_ready place ready done) self other
    · rename_i internal
      obtain rfl : w.finished schema = v := by simpa using run
      exact h.laid.store unknown (by simpa using internal) rfl self other

/-- Every step of a compilation in which no write fails keeps the files in order. -/
theorem steady (distinct : NoSharing A base.session.layout) :
    Steady A base.session.layout.OutputFault (Laying A T base) where
  finds h := setting.finds.sameView (setting.sound.sameView h.unchanged)
  quiet h hq := by
    refine ⟨h.unchanged.quiet hq, ?_, fun q mem => ?_, h.nodup, h.laid.congr hq.1 fun x s _ => ?_⟩
    · obtain ⟨-, diagnostics, session⟩ := hq
      rw [session]
      exact h.distinct
    · rw [state_quiet hq]
      exact h.busy q mem
    · rw [state_quiet hq]
  marked hp h unknown := h.marked setting hp unknown
  forgotten _ h := ⟨h.unchanged.modifySession rfl rfl rfl rfl, h.distinct, h.busy, h.nodup,
    h.laid.congr rfl fun _ _ _ => Iff.rfl⟩
  linked _ _ h := ⟨h.unchanged.modifySession rfl rfl rfl rfl, h.distinct, h.busy, h.nodup,
    h.laid.congr rfl fun _ _ _ => Iff.rfl⟩
  unmarked _ hp h := .inr (h.unmarked setting hp)
  keep := by
    rintro P w v p schema document hp hw read hv rfl -
    have read := (setting.sound.toRooted.readTemplate hw.unchanged (setting.admits _ hp)).mp read
    refine ⟨fun u hu => hv.keep setting distinct read hu, fun e u hu => .inl ?_⟩
    exact (setting.sound.toRooted.kept hv.unchanged (setting.admits _ hp) read).2 e u hu

end Laying

end SchemaLoom
