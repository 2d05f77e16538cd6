import SchemaLoom.Proofs.Watch.Batches
import SchemaLoom.Proofs.Watch.Intake

/-!
# Incremental builds

Between two ticks templates are edited and passed to the loop. A tick that builds without failures
leaves the outputs that a new session would write for the whole source tree. The invariant is that,
unless the next batch builds everything, every template is current that depends on no queued and on
no edited one.
-/

namespace SchemaLoom

open SchemaLoom.Path FileSystem Relation

variable {S T : Place} {start : Workbench} {p : Path} {c : Configuration}

/-- The registry and the documentation are those that the session was started with. -/
structure Workbench.Fixed (start : Workbench) (c : Configuration) (files : FileSystem) : Prop where
  registry : c.loadRegistry files = c.loadRegistry start.files
  pages : ∀ site, start.session.docs = some site → ∀ url,
    (site.page files url).toOption = (site.page start.files url).toOption

theorem plainSession_fixed (entries : List (Place × Entry)) (files : FileSystem) :
    (plainSession entries).Fixed plainConfiguration files :=
  ⟨rfl, fun _ h => by simp [plainSession, Session.start] at h⟩

/-- A watch loop with the templates that were edited since its last tick, and the files that were
passed to it since. -/
structure Watching where
  loop : WatchLoop
  edited : List Path
  passed : List Path

namespace Watching

variable {s t : Watching}

/-- The loop behind the first build. -/
def first (c : Configuration) (start : Workbench) : Watching where
  loop := Program.watchAfter (start.buildAll c).2 c (start.buildAll c).1
  edited := []
  passed := []

def withFiles (s : Watching) (files : FileSystem) : Watching :=
  { s with loop.bench.files := files }

/-- What happens while the templates, the registry and the documentation stay the same files. Before
a tick all edited templates were passed. -/
inductive Step (c : Configuration) (start : Workbench) : Watching → Watching → Prop where
  | edit {s : Watching} {p : Path} {contents : Contents} {files : FileSystem} :
      p ∈ c.sourceFiles s.loop.bench.files →
      s.loop.bench.files.writeFile p contents = .ok files → start.Fixed c files →
      Step c start s { s.withFiles files with edited := p :: s.edited }
  | pass {s : Watching} {p : Path} : s.loop.bench.files.isFile p = true →
      Step c start s { s with
        loop := s.loop.enqueueChange p
        passed := s.loop.bench.files.normalizePath p :: s.passed }
  | tick {s : Watching} : (∀ p ∈ s.edited, p ∈ s.passed) →
      start.Fixed c s.loop.tick.2.bench.files → Step c start s ⟨s.loop.tick.2, [], []⟩

/-- What every step keeps. -/
structure Invariant (c : Configuration) (T : Place) (start : Workbench) (s : Watching) : Prop where
  configured : s.loop.configuration = c
  undeleted : s.loop.deletions = []
  resting : s.loop.rebuildsAll = false
  leaves : Leaves (c.Compilable start) T start s.loop.bench
  fixed : start.Fixed c s.loop.bench.files
  changes : ∀ p ∈ s.loop.changes, p ∈ c.sourceFiles start.files
  edited : ∀ p ∈ s.edited, p ∈ c.sourceFiles start.files
  queued : ∀ p ∈ s.passed, p ∈ c.sourceFiles start.files →
    p ∈ s.loop.changes ∨ s.loop.registryChanged = true
  files : s.loop.lastFailed = false → ∀ p ∈ c.sourceFiles start.files,
    start.files.isFile p = true
  current : s.loop.lastFailed = false → s.loop.registryChanged = false →
    ∀ p ∈ c.sourceFiles start.files,
      (∀ y ∈ s.loop.changes ++ s.edited, ¬ s.loop.bench.Depends p y) →
        Current (c.Compilable start) s.loop.bench p

namespace Invariant

variable (project : Project c S T start)
include project

theorem setting (h : Invariant c T start s) : Setting (c.Compilable start) S T s.loop.bench :=
  h.leaves.akin.setting project.setting

theorem isFile_of_current {w : Workbench} (akin : Akin T start w)
    (mem : p ∈ c.sourceFiles start.files)
    (h : Current (c.Compilable start) w p) : start.files.isFile p = true := by
  obtain ⟨place, valid, rfl, outside⟩ := project.setting.admits p (.inl mem)
  rw [← akin.similar.isFile project.sound.files akin.files (leadsTo_pathOf valid) outside]
  exact h.isFile

/-- The loop that starts to watch. -/
theorem first (fixed : start.Fixed c (Watching.first c start).loop.bench.files) :
    Invariant c T start (Watching.first c start) := by
  have files : (Watching.first c start).loop.bench.files = (start.buildAll c).2.files := by
    unfold Watching.first
    cases (start.buildAll c).1 <;> rfl
  obtain ⟨leaves, current⟩ := project.buildAll_leaves fun site hs url =>
    files ▸ fixed.pages site hs url
  unfold Watching.first at fixed ⊢
  cases built : (start.buildAll c).1 with
  | ok _ =>
    rw [built] at fixed
    have current := current built
    refine ⟨rfl, rfl, rfl, leaves, fixed, ?_, ?_, ?_, ?_, ?_⟩
    · exact fun p mem => absurd mem List.not_mem_nil
    · exact fun p mem => absurd mem List.not_mem_nil
    · exact fun p mem => absurd mem List.not_mem_nil
    · intro _ p mem
      exact isFile_of_current project leaves.akin mem (current p mem)
    · intro _ _ p mem _
      exact current p mem
  | error failure =>
    rw [built] at fixed
    refine ⟨rfl, rfl, rfl, leaves.quiet (Compile.quiet_say _ _ _), fixed, ?_, ?_, ?_, ?_, ?_⟩
    · exact fun p mem => absurd mem List.not_mem_nil
    · exact fun p mem => absurd mem List.not_mem_nil
    · exact fun p mem => absurd mem List.not_mem_nil
    · exact fun failed => absurd failed (by simp [Program.watchAfter, WatchLoop.markFailed])
    · exact fun failed => absurd failed (by simp [Program.watchAfter, WatchLoop.markFailed])

theorem edit (h : Invariant c T start s) {contents : Contents} {files : FileSystem}
    (mem : p ∈ c.sourceFiles s.loop.bench.files)
    (written : s.loop.bench.files.writeFile p contents = .ok files)
    (fixed : start.Fixed c files) :
    Invariant c T start { s.withFiles files with edited := p :: s.edited } := by
  have akin := h.leaves.akin
  have sound := akin.sound project.sound
  have source : p ∈ c.sourceFiles start.files := project.sourceFiles akin ▸ mem
  obtain ⟨⟨names, old, rfl, entry⟩, -⟩ := (project.mem_sourceFiles akin).mp mem
  have valid := akin.files.names _ entry
  obtain ⟨place, located, free, rfl⟩ := writeFile_eq_ok.mp written
  obtain rfl := (locate_leadsTo (leadsTo_pathOf valid) located).1
  obtain ⟨old, file⟩ : ∃ old, s.loop.bench.files.entry? (S ++ names) = some (.file old) := by
    obtain ⟨e, he⟩ := exists_entry entry
    cases e with
    | directory => exact absurd he free
    | file old => exact ⟨old, he⟩
  have edited : Akin T s.loop.bench
      { s.loop.bench with files := s.loop.bench.files.put (S ++ names) (.file contents) } := by
    apply Akin.edited sound file
    intro site url hs
    have hs := akin.view.docs.trans hs
    rw [h.fixed.pages site hs, fixed.pages site hs]
  refine ⟨h.configured, h.undeleted, h.resting, ⟨akin.trans edited, h.leaves.edges⟩, fixed,
    h.changes, List.forall_mem_cons.mpr ⟨source, h.edited⟩, h.queued, h.files, ?_⟩
  intro healthy unchanged q hq free
  have before : Current (c.Compilable start) s.loop.bench q := by
    apply h.current healthy unchanged q hq
    intro y mem
    apply free y
    rcases List.mem_append.mp mem with mem | mem
    · exact List.mem_append_left _ mem
    · exact List.mem_append_right _ (List.mem_cons_of_mem _ mem)
  apply before.edited (h.setting project) edited valid sound.trees.apart.below.2 (.inl hq)
  exact free _ (List.mem_append_right _ List.mem_cons_self)

theorem pass (h : Invariant c T start s) (found : s.loop.bench.files.isFile p = true) :
    Invariant c T start { s with
      loop := s.loop.enqueueChange p
      passed := s.loop.bench.files.normalizePath p :: s.passed } := by
  rcases enqueueChange_cases project h.configured h.leaves.akin found with
    ⟨q, hq, normal, same⟩ | same | ⟨same, foreign⟩
  · rw [same, normal]
    refine ⟨h.configured, h.undeleted, h.resting, h.leaves, h.fixed, ?_, h.edited, ?_, h.files, ?_⟩
    · intro y mem
      rcases List.mem_append.mp mem with mem | mem
      · exact h.changes y mem
      · exact List.mem_singleton.mp mem ▸ hq
    · intro y mem hy
      rcases List.mem_cons.mp mem with rfl | mem
      · exact .inl (List.mem_append_right _ (List.mem_singleton_self y))
      · exact (h.queued y mem hy).imp_left (List.mem_append_left _)
    · intro healthy unchanged y hy free
      apply h.current healthy unchanged y hy
      intro z mem
      apply free z
      rcases List.mem_append.mp mem with mem | mem
      · exact List.mem_append_left _ (List.mem_append_left _ mem)
      · exact List.mem_append_right _ mem
  · rw [same]
    exact ⟨h.configured, h.undeleted, h.resting, h.leaves, h.fixed, h.changes, h.edited,
      fun y _ _ => .inr rfl, h.files, fun _ unchanged => absurd unchanged (by simp)⟩
  · rw [same]
    refine ⟨h.configured, h.undeleted, h.resting, h.leaves, h.fixed, h.changes, h.edited, ?_,
      h.files, h.current⟩
    intro y mem hy
    rcases List.mem_cons.mp mem with rfl | mem
    · exact absurd hy foreign
    · exact h.queued y mem hy

end Invariant

/-! ## A tick -/

/-- A loop that took notice of the registry, when all edited templates are queued. -/
structure Primed (c : Configuration) (T : Place) (start : Workbench) (l : WatchLoop) : Prop where
  configured : l.configuration = c
  undeleted : l.deletions = []
  noticed : l.registryChanged = false
  leaves : Leaves (c.Compilable start) T start l.bench
  changes : ∀ p ∈ l.changes, p ∈ c.sourceFiles start.files
  files : l.lastFailed = false → ∀ p ∈ c.sourceFiles start.files, start.files.isFile p = true
  current : l.rebuildsAll = false → l.lastFailed = false → ∀ p ∈ c.sourceFiles start.files,
    (∀ y ∈ l.changes, ¬ l.bench.Depends p y) → Current (c.Compilable start) l.bench p

theorem Invariant.checkRegistry (project : Project c S T start) (h : Invariant c T start s) :
    s.loop.checkRegistry = s.loop ∧ s.loop.registryChanged = false ∨
      ∃ log, s.loop.checkRegistry = { s.loop with
        registryChanged := false
        rebuildsAll := true
        bench := { s.loop.bench with log } } := by
  unfold WatchLoop.checkRegistry
  cases changed : s.loop.registryChanged with
  | false => exact .inl ⟨rfl, rfl⟩
  | true =>
    obtain ⟨registry, log, loaded, begun⟩ := Configuration.startSession_eq_ok.mp project.started
    have same : s.loop.bench.session.registry = registry := by
      rw [← h.leaves.akin.view.registry, begun]
      rfl
    refine .inr ⟨s.loop.bench.log ++ log, ?_⟩
    unfold WatchLoop.reloadRegistry
    simp only [if_true, h.configured, h.fixed.registry, loaded]
    subst same
    rfl

theorem Invariant.primed (project : Project c S T start) (h : Invariant c T start s)
    (passed : ∀ p ∈ s.edited, p ∈ s.passed) : Primed c T start s.loop.checkRegistry := by
  rcases h.checkRegistry project with ⟨same, unchanged⟩ | ⟨log, same⟩
  · rw [same]
    refine ⟨h.configured, h.undeleted, unchanged, h.leaves, h.changes, h.files, ?_⟩
    intro _ healthy p mem free
    apply h.current healthy unchanged p mem
    intro y hy
    rcases List.mem_append.mp hy with hy | hy
    · exact free y hy
    · have queued := h.queued y (passed y hy) (h.edited y hy)
      exact free y (queued.resolve_right (by simp [unchanged]))
  · rw [same]
    have quiet : Quiet s.loop.bench { s.loop.bench with log } := ⟨rfl, _, rfl⟩
    exact ⟨h.configured, h.undeleted, rfl, h.leaves.quiet quiet, h.changes, h.files,
      fun partly => absurd partly (by simp)⟩

namespace Primed

variable {l : WatchLoop} (project : Project c S T start) (h : Primed c T start l)
include project h

theorem setting : Setting (c.Compilable start) S T l.bench :=
  h.leaves.akin.setting project.setting

theorem plan_admitted : ∀ p ∈ l.plan.1, c.Compilable start p := by
  have sources : ∀ p ∈ l.configuration.sourceFiles l.bench.files, c.Compilable start p := by
    rw [h.configured, project.sourceFiles h.leaves.akin]
    exact fun p mem => .inl mem
  unfold WatchLoop.plan
  split
  · exact sources
  · split
    · exact sources
    · have admitted := withDependents_admitted (fun y mem => .inl (h.changes y mem))
        h.leaves.edges
      simp only
      split <;> exact admitted

/-- What the next batch leaves out is current already. -/
theorem plan_covers (mem : p ∈ c.sourceFiles start.files) :
    p ∈ l.plan.1 ∨ Current (c.Compilable start) l.bench p := by
  have sources : p ∈ l.configuration.sourceFiles l.bench.files := by
    rw [h.configured, project.sourceFiles h.leaves.akin]
    exact mem
  unfold WatchLoop.plan
  cases all : l.rebuildsAll with
  | true => exact .inl sources
  | false =>
    cases failed : l.lastFailed with
    | true => exact .inl sources
    | false =>
      by_cases free : ∀ y ∈ l.changes, ¬ l.bench.Depends p y
      · exact .inr (h.current all failed p mem free)
      · simp only [not_forall, not_not, exists_prop] at free
        obtain ⟨y, hy, depends⟩ := free
        obtain ⟨place, valid, rfl, outside⟩ := project.setting.admits p (.inl mem)
        have file := h.files failed _ mem
        have akin := h.leaves.akin
        rw [← akin.similar.isFile project.sound.files akin.files (leadsTo_pathOf valid) outside]
          at file
        have found := mem_withDependents (h.setting project) (fun y mem => .inl (h.changes y mem))
          h.leaves.edges (.inl mem) file hy depends
        refine .inl ?_
        simp only [Bool.false_eq_true, if_false]
        split <;> exact found

end Primed

namespace Primed

theorem idle {l : WatchLoop} (h : Primed c T start l) (fixed : start.Fixed c l.bench.files)
    (nothing : l.changes = []) (resting : l.rebuildsAll = false) :
    Invariant c T start ⟨l, [], []⟩ := by
  refine ⟨h.configured, h.undeleted, resting, h.leaves, fixed, h.changes, ?_, ?_, h.files, ?_⟩
  · exact fun p mem => absurd mem List.not_mem_nil
  · exact fun p mem => absurd mem List.not_mem_nil
  · intro healthy _ p mem _
    apply h.current resting healthy p mem
    rw [nothing]
    exact fun y hy => absurd hy List.not_mem_nil

variable {l : WatchLoop} (project : Project c S T start) (h : Primed c T start l)
include project h

theorem batch_leaves : Leaves (c.Compilable start) T start l.reported := by
  have said := Compile.quiet_say l.bench "watch" l.plan.2
  have base := h.leaves.quiet said
  have leaves := compileBatch_leaves (base.akin.setting project.setting) base.edges
    (h.plan_admitted project)
  have told := leaves.quiet (quiet_summarize l.batch.2 l.batch.1)
  exact ⟨base.akin.trans told.akin, told.edges⟩

theorem batch_current (ok : l.batch.1.isOk = true) (mem : p ∈ c.sourceFiles start.files) :
    Current (c.Compilable start) l.reported p := by
  have said := Compile.quiet_say l.bench "watch" l.plan.2
  have base := h.leaves.quiet said
  have setting := base.akin.setting project.setting
  have distinct : NoSharing (c.Compilable start) (l.bench.say "watch" l.plan.2).session.layout := by
    rw [← base.akin.view.layout, project.layout]
    exact project.distinct
  have admitted := h.plan_admitted project
  have hp : c.Compilable start p := .inl mem
  have covered := (h.plan_covers project mem).imp_right fun current =>
    current.quiet (h.setting project) said hp
  have succeeded := compileBatch_succeeded setting distinct admitted ok
  have leaves := compileBatch_leaves setting base.edges admitted
  exact (succeeded.current setting distinct hp covered).quiet (leaves.akin.setting setting)
    (quiet_summarize l.batch.2 l.batch.1) hp

theorem built (fixed : start.Fixed c l.build.2.bench.files) :
    Invariant c T start ⟨l.build.2, [], []⟩ := by
  have leaves := h.batch_leaves project
  have none : ∀ {P : Path → Prop}, ∀ p ∈ ([] : List Path), P p :=
    fun p mem => absurd mem List.not_mem_nil
  cases ok : l.batch.1.isOk with
  | true =>
    have current := fun p => h.batch_current (p := p) project ok
    rw [WatchLoop.build_of_isOk ok] at fixed ⊢
    refine ⟨h.configured, h.undeleted, rfl, leaves, fixed, none, none, none, ?_, ?_⟩
    · intro _ p mem
      exact Invariant.isFile_of_current project leaves.akin mem (current p mem)
    · intro _ _ p mem _
      exact current p mem
  | false =>
    obtain ⟨bench, quiet, same⟩ := WatchLoop.build_of_failed ok
    rw [same] at fixed ⊢
    exact ⟨h.configured, h.undeleted, rfl, leaves.quiet quiet, fixed, none, none, none,
      fun healthy => absurd healthy (by simp), fun healthy => absurd healthy (by simp)⟩

end Primed

theorem Invariant.tick (project : Project c S T start) (h : Invariant c T start s)
    (passed : ∀ p ∈ s.edited, p ∈ s.passed) (fixed : start.Fixed c s.loop.tick.2.bench.files) :
    Invariant c T start ⟨s.loop.tick.2, [], []⟩ := by
  have primed := h.primed project passed
  rw [WatchLoop.tick_eq h.undeleted] at fixed ⊢
  by_cases nothing :
      (s.loop.checkRegistry.changes.isEmpty && !s.loop.checkRegistry.rebuildsAll) = true
  · rw [if_pos nothing] at fixed ⊢
    simp only [Bool.and_eq_true, List.isEmpty_iff, Bool.not_eq_true'] at nothing
    exact primed.idle fixed nothing.1 nothing.2
  · rw [if_neg nothing] at fixed ⊢
    exact primed.built project fixed

/-- Every run keeps the invariant. -/
theorem Invariant.run (project : Project c S T start)
    (fixed : start.Fixed c (Watching.first c start).loop.bench.files)
    (run : ReflTransGen (Step c start) (Watching.first c start) s) : Invariant c T start s := by
  induction run with
  | refl => exact Invariant.first project fixed
  | tail _ step ih =>
    cases step with
    | edit mem written fixed => exact ih.edit project mem written fixed
    | pass found => exact ih.pass project found
    | tick passed fixed => exact ih.tick project passed fixed

end Watching

/-! ## A new session -/

theorem startSession_fixed (project : Project c S T start) {w : Workbench} (akin : Akin T start w)
    (fixed : start.Fixed c w.files) :
    ∃ again, c.startSession w.files = .ok again ∧ again.newGeneration = again ∧
      again.files = w.files ∧ Akin T w again := by
  obtain ⟨registry, log, loaded, begun⟩ := Configuration.startSession_eq_ok.mp project.started
  refine ⟨_, Configuration.startSession_eq_ok.mpr ⟨registry, log, fixed.registry.trans loaded, rfl⟩,
    rfl, rfl, ?_⟩
  apply Akin.of_session akin.files
  · rfl
  · rw [← akin.view.layout, begun]
  · rw [← akin.view.registry, begun]
  · rw [← akin.view.docs, begun]
  · rw [akin.pretty, begun]

section Again

variable (project : Project c S T start) {w again : Workbench} (akin : Akin T start w)
  (files : again.files = w.files) (same : Akin T w again)
include project akin files same

theorem good_again (mem : p ∈ c.sourceFiles start.files) (good : Good w p) : Good again p := by
  refine good.carried (akin.setting project.setting) (.inl mem) ?_
  exact .of_view same.view (.of_reads (.inl mem) fun x _ document => by rw [files])

variable (new : again.newGeneration = again)
include new

/-- A new session writes what is there for a template whose document was written. -/
theorem output_of_rendered
    (faultless : ∀ f ∈ (again.compileBatch (c.sourceFiles w.files)).1.failures,
      ¬ c.layout.OutputFault f.2)
    (mem : p ∈ c.sourceFiles w.files) (rendered : Rendered w p) :
    ∃ s, (again.compileBatch (c.sourceFiles w.files)).2.state p = .known s ∧
      (s.isExported = true → ∃ o, (c.layout.outputFor p).LeadsTo o ∧
        w.files.entry? o = some (.file (.text (again.textOf s))) ∧
        (again.compileBatch (c.sourceFiles w.files)).2.files.entry? o =
          some (.file (.text (again.textOf s)))) := by
  have setting := akin.setting project.setting
  have setting' := same.setting setting
  have layout : again.session.layout = c.layout := by
    rw [← same.view.layout, ← akin.view.layout, project.layout]
  rw [project.sourceFiles akin] at faultless mem ⊢
  have admitted : ∀ p ∈ c.sourceFiles start.files, c.Compilable start p := fun p mem => .inl mem
  have distinct : NoSharing (c.Compilable start) again.session.layout := layout ▸ project.distinct
  have faultless : ∀ p e, (p, e) ∈ (again.newGeneration.compileAll (c.sourceFiles start.files)).1 →
      ¬ again.session.layout.OutputFault e := fun p e mem => layout ▸ faultless (p, e) mem
  obtain ⟨compiled, -⟩ := compileAll_compiled setting'.newGeneration (settled_newGeneration again)
    admitted faultless
  have laid := ((Laying.steady setting'.newGeneration distinct).compileAll
    (laying_newGeneration again) admitted faultless).laid
  have hp := admitted p mem
  have good := good_again project akin files same mem rendered.good
  obtain ⟨s, known⟩ := (compiled.knows_iff admitted hp).mpr ⟨new.symm ▸ good, p, mem, .refl⟩
  refine ⟨s, known, fun exported => ?_⟩
  have compiles := compiled.settled.good p s hp known
  obtain ⟨o, exports⟩ := laid.places p s hp known exported
  have written := laid.written p s o exports
  have place := exports.place
  rw [new] at compiles place
  have alike : SeesAlike (c.Compilable start) w again p :=
    .of_view same.view (.of_reads hp fun x _ document => by rw [files])
  obtain ⟨o', leads, file⟩ := rendered.written s
    ((rendered.good.compiles_carried setting hp alike).mpr compiles) exported
  rw [same.view.layout] at leads
  obtain rfl := place.unique leads
  rw [← layout]
  rw [← same.view.textOf same.pretty] at file
  exact ⟨o, leads, file, written⟩

/-- Where every template is current, a new session writes what is there. -/
theorem outputs_of_current (current : ∀ p ∈ c.sourceFiles start.files,
      Current (c.Compilable start) w p)
    (faultless : ∀ f ∈ (again.compileBatch (c.sourceFiles w.files)).1.failures,
      ¬ c.layout.OutputFault f.2) :
    (again.compileBatch (c.sourceFiles w.files)).1.failures = [] ∧
    ∀ p ∈ c.sourceFiles w.files, ∃ s,
      (again.compileBatch (c.sourceFiles w.files)).2.state p = .known s ∧
      (s.isExported = true → ∃ o, (c.layout.outputFor p).LeadsTo o ∧
        w.files.entry? o = some (.file (.text (again.textOf s))) ∧
        (again.compileBatch (c.sourceFiles w.files)).2.files.entry? o =
          some (.file (.text (again.textOf s)))) := by
  have sources := project.sourceFiles akin
  refine ⟨?_, fun p mem => ?_⟩
  · have layout : again.session.layout = c.layout := by
      rw [← same.view.layout, ← akin.view.layout, project.layout]
    have setting' := (same.setting (akin.setting project.setting)).newGeneration
    rw [sources] at faultless ⊢
    apply List.eq_nil_iff_forall_not_mem.mpr
    rintro ⟨p, e⟩ mem
    have failed := (compileAll_compiled setting' (settled_newGeneration again)
      (fun p mem => .inl mem) fun p e mem => layout ▸ faultless (p, e) mem).2 p
    obtain ⟨hp, bad⟩ := failed.mp ⟨e, mem⟩
    have good := good_again project akin files same hp (current p hp p .refl).good
    exact bad (new.symm ▸ good)
  · exact output_of_rendered project akin files same new faultless mem
      (current p (sources ▸ mem) p .refl).toRendered

end Again

/-- After a tick that built without failures, every template of the source tree compiles in a new
session, and the outputs of those that are exported are what that session would write. -/
theorem incremental_builds (project : Project c S T start)
    (fixed : start.Fixed c (Watching.first c start).loop.bench.files) {s : Watching}
    (run : ReflTransGen (Watching.Step c start) (Watching.first c start) s)
    (passed : ∀ p ∈ s.edited, p ∈ s.passed) {report : BatchReport} {l : WatchLoop}
    (tick : s.loop.tick = (.built report, l)) (ok : report.isOk = true)
    (still : start.Fixed c l.bench.files) :
    ∃ again, c.startSession l.bench.files = .ok again ∧
      ((∀ f ∈ (again.compileBatch (c.sourceFiles l.bench.files)).1.failures,
          ¬ c.layout.OutputFault f.2) →
        (again.compileBatch (c.sourceFiles l.bench.files)).1.failures = [] ∧
        ∀ p ∈ c.sourceFiles l.bench.files, ∃ schema,
          (again.compileBatch (c.sourceFiles l.bench.files)).2.state p = .known schema ∧
          (schema.isExported = true → ∃ o, (c.layout.outputFor p).LeadsTo o ∧
            l.bench.files.entry? o = some (.file (.text (again.textOf schema))) ∧
            (again.compileBatch (c.sourceFiles l.bench.files)).2.files.entry? o =
              some (.file (.text (again.textOf schema))))) := by
  have invariant := Watching.Invariant.run project fixed run
  have primed := invariant.primed project passed
  rw [WatchLoop.tick_eq invariant.undeleted] at tick
  split at tick
  · simp at tick
  · obtain ⟨reported, rfl⟩ := Prod.mk.inj tick
    have built : s.loop.checkRegistry.batch.1.isOk = true := by
      rw [← WatchLoop.build_report, Tick.built.inj reported]
      exact ok
    have current := fun p mem => primed.batch_current (p := p) project built mem
    have akin := (primed.batch_leaves project).akin
    rw [WatchLoop.build_of_isOk built] at still ⊢
    obtain ⟨again, started, new, files, same⟩ := startSession_fixed project akin still
    exact ⟨again, started, outputs_of_current project akin files same new current⟩

/-! ## An edit of an imported template -/

/-- A template and one that includes it. -/
def sharedTitle : List (Place × Entry) :=
  [(["src"], .directory), (["src", "a.yml"], .file (.text "title: a")),
    (["src", "b.yml"], .file (.text "$IMPORT:\n  type: include\n  path: a"))]

theorem sharedTitle_project :
    Project plainConfiguration ["src"] ["out"] (plainSession sharedTitle) :=
  plainSession_project (.ofEntries (by decide) (by decide)) (by decide +kernel) (by decide +kernel)
    (by decide +kernel)

theorem sharedTitle_sources : plainConfiguration.sourceFiles (plainSession sharedTitle).files =
    [⟨"/src/a.yml"⟩, ⟨"/src/b.yml"⟩] :=
  sourceFiles_eq (by decide +kernel) (by decide +kernel)

/-- The first build of both templates. -/
@[irreducible]
def sharedTitleBatch : BatchReport × Workbench :=
  ((plainSession sharedTitle).say "build" s!"compiling {toString 2} templates").compileBatch
    [⟨"/src/a.yml"⟩, ⟨"/src/b.yml"⟩]

theorem sharedTitle_built : (plainSession sharedTitle).buildAll plainConfiguration =
    (.ok (), sharedTitleBatch.2.summarize sharedTitleBatch.1) := by
  have ok : sharedTitleBatch.1.isOk = true := by decide +kernel
  rw [buildAll_of_ok (w := plainSession sharedTitle) (c := plainConfiguration) rfl]
  unfold sharedTitleBatch at ok ⊢
  exact buildSources_of_ok sharedTitle_sources rfl rfl ok

theorem sharedTitle_first : Watching.first plainConfiguration (plainSession sharedTitle) =
    ⟨.start (sharedTitleBatch.2.summarize sharedTitleBatch.1) plainConfiguration, [], []⟩ := by
  unfold Watching.first
  rw [sharedTitle_built]
  rfl

/-- The loop behind the first build, when the imported template got another title. -/
def retitling : Watching :=
  let bench := sharedTitleBatch.2.summarize sharedTitleBatch.1
  let files := bench.files.put ["src", "a.yml"] (.file (.text "title: z"))
  ⟨.start { bench with files } plainConfiguration, [⟨"/src/a.yml"⟩], []⟩

/-- The same loop, when the edited template was passed to it. -/
def retitled : Watching :=
  { retitling with
    loop := retitling.loop.enqueueChange ⟨"/src/a.yml"⟩
    passed := retitling.loop.bench.files.normalizePath ⟨"/src/a.yml"⟩ :: retitling.passed }

/-- A new session on the files behind the next tick. -/
def retitledAgain : Workbench :=
  ⟨(plainSession sharedTitle).session, retitled.loop.checkRegistry.build.2.bench.files, []⟩

/-- What the evaluation of that loop shows: the edit can be made, the edited template is passed, and
the next tick builds both templates, as a new session does. -/
theorem retitled_facts :
    ((sharedTitleBatch.2.summarize sharedTitleBatch.1).files.locate ⟨"/src/a.yml"⟩ =
        .ok ["src", "a.yml"] ∧
      (sharedTitleBatch.2.summarize sharedTitleBatch.1).files.entry? ["src", "a.yml"] ≠
        some .directory) ∧
    (retitling.loop.bench.files.isFile ⟨"/src/a.yml"⟩ = true ∧
      ∀ p ∈ retitled.edited, p ∈ retitled.passed) ∧
    (retitled.loop.deletions = [] ∧ ¬ (retitled.loop.checkRegistry.changes.isEmpty &&
      !retitled.loop.checkRegistry.rebuildsAll) = true) ∧
    retitled.loop.checkRegistry.build.1.isOk = true ∧
    ((retitledAgain.files.filesBelow plainConfiguration.source).filter fun file =>
      file.isTemplate && !ignoredFiles.contains (file.fileName?.getD "")) =
        [⟨"/src/a.yml"⟩, ⟨"/src/b.yml"⟩] ∧
    (retitledAgain.compileBatch [⟨"/src/a.yml"⟩, ⟨"/src/b.yml"⟩]).1.isOk = true := by
  decide +kernel

theorem retitled_run : ReflTransGen (Watching.Step plainConfiguration (plainSession sharedTitle))
    (Watching.first plainConfiguration (plainSession sharedTitle)) retitled := by
  obtain ⟨⟨located, free⟩, ⟨file, -⟩, -⟩ := retitled_facts
  have first := Watching.Invariant.first sharedTitle_project (plainSession_fixed _ _)
  have edit : Watching.Step plainConfiguration (plainSession sharedTitle)
      (Watching.first plainConfiguration (plainSession sharedTitle)) retitling := by
    have mem : ⟨"/src/a.yml"⟩ ∈ plainConfiguration.sourceFiles
        (Watching.first plainConfiguration (plainSession sharedTitle)).loop.bench.files := by
      rw [sharedTitle_project.sourceFiles first.leaves.akin, sharedTitle_sources]
      exact List.mem_cons_self
    rw [sharedTitle_first] at mem ⊢
    have written : (sharedTitleBatch.2.summarize sharedTitleBatch.1).files.writeFile _
        (.text "title: z") = _ := writeFile_eq_ok.mpr ⟨_, located, free, rfl⟩
    exact .edit mem written (plainSession_fixed _ _)
  exact .tail (.single edit) (.pass file)

/-- The tick behind that edit builds both templates, as a new session does. -/
theorem incremental_builds_retitled : ∃ report l, retitled.loop.tick = (.built report, l) ∧
    report.isOk = true ∧ ∃ again, plainConfiguration.startSession l.bench.files = .ok again ∧
      (again.compileBatch (plainConfiguration.sourceFiles l.bench.files)).1.failures = [] ∧
      ∀ p ∈ plainConfiguration.sourceFiles l.bench.files, ∃ schema,
        (again.compileBatch (plainConfiguration.sourceFiles l.bench.files)).2.state p =
          .known schema ∧
        (schema.isExported = true → ∃ o, (plainConfiguration.layout.outputFor p).LeadsTo o ∧
          l.bench.files.entry? o = some (.file (.text (again.textOf schema))) ∧
          (again.compileBatch (plainConfiguration.sourceFiles l.bench.files)).2.files.entry? o =
            some (.file (.text (again.textOf schema)))) := by
  obtain ⟨-, ⟨-, passed⟩, ⟨undeleted, busy⟩, ok, found, faultless⟩ := retitled_facts
  have tick := WatchLoop.tick_eq undeleted
  rw [if_neg busy] at tick
  refine ⟨_, _, tick, ok, ?_⟩
  obtain ⟨again, started, outputs⟩ := incremental_builds sharedTitle_project
    (plainSession_fixed _ _) retitled_run passed tick ok (plainSession_fixed _ _)
  refine ⟨again, started, outputs ?_⟩
  obtain ⟨registry, log, loaded, rfl⟩ := Configuration.startSession_eq_ok.mp started
  obtain ⟨rfl, rfl⟩ : none = registry ∧ [] = log := Prod.mk.inj (Except.ok.inj loaded)
  have sources := sourceFiles_eq found (by decide +kernel)
  intro f mem
  have none := List.isEmpty_iff.mp faultless
  rw [← sources] at none
  exact absurd (none ▸ mem) List.not_mem_nil

end SchemaLoom
