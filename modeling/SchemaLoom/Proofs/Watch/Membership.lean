import SchemaLoom.Proofs.Dependencies.Closure
import SchemaLoom.Proofs.Session.Confinement
import SchemaLoom.Proofs.Session.Widening
import SchemaLoom.Proofs.Watch.Incremental

/-!
# When the set of templates changes

Templates are created or removed while the loop has nothing to do, and passed to it; then it ticks
until it is idle again. One batch is built at most. It renders its templates with all that they
reach, and leaves every other one rendered that was so on the new set of files.
-/

namespace SchemaLoom

open SchemaLoom.Path FileSystem Compile Relation

variable {A : Path → Prop} {S T : Place} {more : Place → Prop} {w v start : Workbench}
  {c : Configuration} {l k : WatchLoop} {p x y : Path}

/-! ## A loop that has nothing to do -/

namespace WatchLoop

/-- Ticks until the loop is idle, without failures in any batch. -/
inductive RunsOut : WatchLoop → WatchLoop → Prop where
  | idle {l : WatchLoop} : l.tick.1 = .idle → RunsOut l l.tick.2
  | deleted {l k : WatchLoop} {source : Path} : l.tick.1 = .deleted source → RunsOut l.tick.2 k →
      RunsOut l k
  | built {l k : WatchLoop} {report : BatchReport} : l.tick.1 = .built report →
      report.isOk = true → RunsOut l.tick.2 k → RunsOut l k

/-- The last batch did not fail, and the next one builds only what is queued. -/
structure Healthy (l : WatchLoop) : Prop where
  noticed : l.registryChanged = false
  healthy : l.lastFailed = false
  partly : l.rebuildsAll = false

theorem Healthy.plan (h : l.Healthy) : l.plan.1 = l.bench.withDependents l.changes :=
  plan_of_partly h.partly h.healthy

theorem Healthy.tick_of_nothing (h : l.Healthy) (undeleted : l.deletions = [])
    (nothing : l.changes = []) : l.tick = (.idle, l) := by
  rcases l.tick_cases with ⟨source, rest, queue, -⟩ | ⟨-, -, same⟩ | ⟨-, busy, -⟩
  · simp [undeleted] at queue
  · exact same
  · exact absurd ⟨nothing, h.partly, h.noticed⟩ busy

theorem Healthy.tick_of_changes (h : l.Healthy) (undeleted : l.deletions = [])
    (queued : l.changes ≠ []) : l.tick = (.built l.batch.1, l.build.2) := by
  rcases l.tick_cases with ⟨source, rest, queue, -⟩ | ⟨-, ⟨nothing, -⟩, -⟩ | ⟨-, -, same⟩
  · simp [undeleted] at queue
  · exact absurd nothing queued
  · rw [same, checkRegistry_of_unchanged h.noticed, build_report]

/-- A loop whose queue was built. -/
def emptied (l : WatchLoop) : WatchLoop :=
  { l with
    bench := l.reported
    changes := []
    lastFailed := false
    rebuildsAll := false }

theorem Healthy.emptied (h : l.Healthy) : l.emptied.Healthy := ⟨h.noticed, rfl, rfl⟩

theorem Healthy.runsOut_of_isOk (h : l.Healthy) (undeleted : l.deletions = [])
    (queued : l.changes ≠ []) (ok : l.batch.1.isOk = true) : l.RunsOut l.emptied := by
  have tick := h.tick_of_changes undeleted queued
  rw [build_of_isOk ok] at tick
  have idle := h.emptied.tick_of_nothing undeleted rfl
  refine .built (congrArg Prod.fst tick) ok ?_
  rw [congrArg Prod.snd tick]
  have rests : l.emptied.RunsOut l.emptied.tick.2 := .idle (congrArg Prod.fst idle)
  rwa [congrArg Prod.snd idle] at rests

/-- What the loop leaves behind that is idle once the queue was built. -/
theorem Healthy.runsOut (h : l.Healthy) (undeleted : l.deletions = []) (runs : l.RunsOut k) :
    l.changes = [] ∧ k = l ∨ l.changes ≠ [] ∧ l.batch.1.isOk = true ∧ k.bench = l.reported := by
  have stays : ∀ {l : WatchLoop}, l.Healthy → l.deletions = [] → l.changes = [] → l.RunsOut k →
      k = l := by
    intro l h undeleted nothing runs
    have tick := h.tick_of_nothing undeleted nothing
    cases runs with
    | idle _ => rw [tick]
    | deleted deleted _ => simp [tick] at deleted
    | built built _ _ => simp [tick] at built
  by_cases nothing : l.changes = []
  · exact .inl ⟨nothing, stays h undeleted nothing runs⟩
  · have tick := h.tick_of_changes undeleted nothing
    refine .inr ⟨nothing, ?_⟩
    cases runs with
    | idle idle => simp [tick] at idle
    | deleted deleted _ => simp [tick] at deleted
    | built built ok rest =>
      rw [tick] at built rest
      obtain rfl := Tick.built.inj built
      rw [build_of_isOk ok] at rest
      exact ⟨ok, congrArg bench (stays h.emptied undeleted rfl rest)⟩

end WatchLoop

/-! ## The batch of what is queued -/

theorem Rendered.akin (setting : Setting A S T w) (akin : Akin T w v) (hx : A x)
    (reads : ReadsAlike A w v x) (output : KeepsOutput w v x) (h : Rendered w x) : Rendered v x :=
  h.carried setting hx (.of_view akin.view reads) (fun s _ => akin.view.textOf akin.pretty s) output

theorem Rendered.quiet (setting : Setting A S T w) (hq : Quiet w v) (hx : A x) (h : Rendered w x) :
    Rendered v x := by
  apply h.akin setting (.quiet setting.sound.files hq) hx
  · exact .of_reads hx fun y _ document => by rw [hq.1]
  · exact fun o text _ file => hq.1 ▸ file

/-- Only templates are queued, and they share no outputs. -/
structure Queued (A : Path → Prop) (S T : Place) (l : WatchLoop) : Prop where
  healthy : l.Healthy
  setting : Setting A S T l.bench
  distinct : NoSharing A l.bench.session.layout
  changes : ∀ y ∈ l.changes, A y
  edges : l.bench.session.imports.Joins A

namespace Queued

variable (h : Queued A S T l)
include h

theorem admitted : ∀ y ∈ l.plan.1, A y := by
  rw [h.healthy.plan]
  exact withDependents_admitted h.changes h.edges

theorem setting_said : Setting A S T (l.bench.say "watch" l.plan.2) :=
  (Akin.quiet h.setting.sound.files (quiet_say _ _ _)).setting h.setting

theorem akin : Akin T l.bench l.reported := by
  have leaves := compileBatch_leaves h.setting_said h.edges h.admitted
  exact (Akin.quiet h.setting.sound.files (quiet_say _ _ _)).trans
    (leaves.quiet (quiet_summarize l.batch.2 l.batch.1)).akin

variable (ok : l.batch.1.isOk = true)
include ok

theorem succeeded : Succeeded A T (l.bench.say "watch" l.plan.2) l.plan.1 l.batch.2 :=
  compileBatch_succeeded h.setting_said h.distinct h.admitted ok

/-- A batch compiles the planned templates and all that they reach behind it. -/
theorem knows_iff (hx : A x) : l.batch.2.Knows x ↔ ∃ y ∈ l.plan.1, Reach A l.reported y x := by
  have succeeded := h.succeeded ok
  have fresh := h.setting_said.newGeneration
  have told := quiet_summarize l.batch.2 l.batch.1
  have view := (succeeded.view h.setting_said).trans told.sameView
  have reach : ∀ y ∈ l.plan.1,
      (Reach A (l.bench.say "watch" l.plan.2).newGeneration y x ↔ Reach A l.reported y x) := by
    intro y mem
    have hy := h.admitted y mem
    apply (succeeded.good y mem).reach_carried fresh hy
    refine .of_view view (.of_reads hy fun z hz document => ?_)
    rw [WatchLoop.reported, told.1]
    exact succeeded.reads h.setting_said hz document
  rw [succeeded.compiled.knows_iff h.admitted hx]
  constructor
  · rintro ⟨-, y, mem, way⟩
    exact ⟨y, mem, (reach y mem).mp way⟩
  · rintro ⟨y, mem, way⟩
    have way := (reach y mem).mpr way
    exact ⟨((succeeded.good y mem).reach fresh (h.admitted y mem) way).2, y, mem, way⟩

theorem rendered (hx : A x)
    (covered : (∃ y ∈ l.plan.1, Reach A l.reported y x) ∨ Rendered l.bench x) :
    Rendered l.reported x := by
  have succeeded := h.succeeded ok
  have leaves := compileBatch_leaves h.setting_said h.edges h.admitted
  have setting := leaves.akin.setting h.setting_said
  rw [← h.knows_iff ok hx] at covered
  have said := quiet_say l.bench "watch" l.plan.2
  have before := covered.imp_right fun rendered => rendered.quiet h.setting said hx
  exact (succeeded.rendered h.setting_said h.distinct hx before).quiet setting
    (quiet_summarize l.batch.2 l.batch.1) hx

theorem output_iff (hx : A x) (unreached : ¬ ∃ y ∈ l.plan.1, Reach A l.reported y x) {o : Place}
    (place : (l.bench.session.layout.outputFor x).LeadsTo o) (contents : Contents) :
    l.reported.files.entry? o = some (.file contents) ↔
      l.bench.files.entry? o = some (.file contents) := by
  rw [← h.knows_iff ok hx] at unreached
  rw [WatchLoop.reported, (quiet_summarize l.batch.2 l.batch.1).1]
  exact (h.succeeded ok).output_iff h.distinct hx unreached place contents

end Queued

/-- What was queued is built: it is rendered with all that it reaches, what was rendered is so
still, and no other output is touched. -/
structure CaughtUp (A : Path → Prop) (T : Place) (l k : WatchLoop) : Prop where
  akin : Akin T l.bench k.bench
  rendered : ∀ x, A x → (∃ y ∈ l.plan.1, Reach A k.bench y x) ∨ Rendered l.bench x →
    Rendered k.bench x
  output_iff : ∀ x, A x → (¬ ∃ y ∈ l.plan.1, Reach A k.bench y x) →
    ∀ o, (l.bench.session.layout.outputFor x).LeadsTo o → ∀ contents,
      (k.bench.files.entry? o = some (.file contents) ↔
        l.bench.files.entry? o = some (.file contents))

/-- A loop with nothing but changes queued catches up when it runs until it is idle. -/
theorem Queued.caughtUp (h : Queued A S T l) (undeleted : l.deletions = []) (runs : l.RunsOut k) :
    CaughtUp A T l k := by
  rcases h.healthy.runsOut undeleted runs with ⟨nothing, rfl⟩ | ⟨-, ok, same⟩
  · have none : ∀ y, y ∉ k.plan.1 := by
      intro y mem
      rw [h.healthy.plan, nothing] at mem
      have listed := Dependencies.hasPath_of_mem (List.mem_filter.mp mem).1
      obtain ⟨-, z, mem, -⟩ := Dependencies.hasPath_affected_iff.mp listed
      exact List.not_mem_nil mem
    refine ⟨.refl h.setting.sound.files, fun x _ covered => ?_, fun _ _ _ _ _ _ => Iff.rfl⟩
    exact covered.resolve_left fun ⟨y, mem, _⟩ => none y mem
  · constructor
    · exact same ▸ h.akin
    · rw [same]
      exact fun x hx covered => h.rendered ok hx covered
    · rw [same]
      exact fun x hx unreached o place contents => h.output_iff ok hx unreached place contents

/-! ## Fewer templates -/

namespace Widened

variable (widened : Widened more w v) (source : c.source = pathOf S)
  (find : v.files.find (pathOf S) = .ok (S, .directory))
include widened source find

theorem sourceFile {place : Place} {contents : Contents} (below : S <+: place)
    (template : (pathOf place).isTemplate = true)
    (mem : (place, .file contents) ∈ w.files.entries) : pathOf place ∈ c.sourceFiles v.files := by
  obtain ⟨names, rfl⟩ := below
  obtain ⟨contents', there⟩ := (widened.files.lists (widened.files.old mem)).mpr ⟨contents, mem⟩
  rw [c.mem_sourceFiles source widened.wellFormed find]
  exact ⟨⟨names, contents', rfl, there⟩, template, not_mem_ignoredFiles template⟩

/-- Where new files are in the source tree only, all that is found without them is a template of the
wider tree, or can be named there too. -/
theorem finds (rooted : w.Rooted S T) (inside : ∀ q, more q → S <+: q) :
    Finds (c.Compilable v) w := by
  have below := rooted.trees.apart.ne_nil
  constructor
  · intro raw directory exclude named d mem
    obtain ⟨template, b, name, contents, valid, rfl, entry⟩ :=
      mem_variants rooted.trees.source below rooted.files named mem
    refine .inl (widened.sourceFile source find ?_ template entry)
    rw [List.append_assoc]
    exact List.prefix_append S _
  · intro relative d found
    obtain ⟨q, contents, file⟩ := isFile_iff.mp (List.find?_some found)
    obtain ⟨template, ⟨⟨b, valid, rfl⟩, -⟩ | ⟨-, root⟩⟩ :=
      Layout.candidate_cases rooted.trees.source below (List.mem_of_find?_eq_some found)
    · obtain ⟨rfl, entry⟩ := find_leadsTo (leadsTo_pathOf valid) file
      have ne : S ++ b ≠ [] := by simp [below]
      exact .inl (widened.sourceFile source find (List.prefix_append S b) template
        (mem_entries entry ne))
    · -- Templates beside the root are none of the new ones, so the same one is found first.
      refine .inr (.inr ⟨relative, ?_⟩)
      rw [← found]
      unfold FileSystem.findSource?
      rw [widened.session]
      symm
      have paths : ∀ x ∈ w.session.layout.candidates relative,
          ∃ place, x.LeadsTo place ∧ ¬ more place := by
        intro x mem
        obtain ⟨place, valid, rfl, -⟩ := rooted.trees.candidates mem
        refine ⟨place, leadsTo_pathOf valid, fun new => ?_⟩
        obtain ⟨-, ⟨-, other⟩ | ⟨beside, -⟩⟩ :=
          Layout.candidate_cases rooted.trees.source below mem
        · exact other root
        · obtain ⟨names, rfl⟩ := inside place new
          exact beside.not_inTree ⟨names, valid, rfl⟩
      apply find?_congr
      intro x mem
      obtain ⟨place, leads, old⟩ := paths x mem
      exact (widened.files.isFile rooted.files widened.wellFormed leads old).symm

end Widened

theorem Project.compilable_akin (project : Project c S T start) (akin : Akin T start w) :
    c.Compilable w p ↔ c.Compilable start p := by
  have offers : ∀ {w v : Workbench}, SameView w v → w.Offers p → v.Offers p := by
    rintro w v view (⟨raw, directory, exclude, named, mem⟩ | ⟨relative, found⟩)
    · refine .inl ⟨raw, directory, exclude, (view.directory raw).symm.trans named, ?_⟩
      rwa [← view.variants raw directory exclude named]
    · exact .inr ⟨relative, (view.single relative).symm.trans found⟩
  unfold Configuration.Compilable
  rw [project.sourceFiles akin]
  exact or_congr_right ⟨offers akin.view.symm, offers akin.view⟩

theorem Project.akin_again (project : Project c S T start) (akin : Akin T start w)
    {again : Workbench} (started : c.startSession again.files = .ok again)
    (fixed : start.Fixed c again.files) (wf : WellFormed again.files) :
    Akin T again { w with files := again.files } := by
  obtain ⟨registry, log, loaded, begun⟩ := Configuration.startSession_eq_ok.mp project.started
  obtain ⟨registry', log', loaded', begun'⟩ := Configuration.startSession_eq_ok.mp started
  have same := loaded'.symm.trans (fixed.registry.trans loaded)
  obtain ⟨rfl, rfl⟩ : registry' = registry ∧ log' = log := by simpa using same
  have files : { w with files := again.files }.files = again.files := rfl
  apply Akin.of_session wf files
  · rw [← akin.view.layout, begun, begun']
  · rw [← akin.view.registry, begun, begun']
  · rw [← akin.view.docs, begun, begun']
  · rw [akin.pretty, begun, begun']

/-! ## What a full build would write -/

/-- A full build in a new session on the files compiles the template, and writes for it what is
there already, unless it is kept from writing. -/
def Configuration.Reproduces (c : Configuration) (files : FileSystem) (p : Path) : Prop :=
  ∃ again, c.startSession files = .ok again ∧
    ((∀ f ∈ (again.compileBatch (c.sourceFiles files)).1.failures, ¬ c.layout.OutputFault f.2) →
      ∃ s, (again.compileBatch (c.sourceFiles files)).2.state p = .known s ∧
        (s.isExported = true → ∃ o, (c.layout.outputFor p).LeadsTo o ∧
          files.entry? o = some (.file (.text (again.textOf s))) ∧
          (again.compileBatch (c.sourceFiles files)).2.files.entry? o =
            some (.file (.text (again.textOf s)))))

theorem Workbench.Fixed.between {again : Workbench} {files : FileSystem}
    (fixed : start.Fixed c again.files) (still : start.Fixed c files)
    (docs : again.session.docs = start.session.docs) : again.Fixed c files where
  registry := still.registry.trans fixed.registry.symm
  pages site hs url := by
    rw [docs] at hs
    exact (still.pages site hs url).trans (fixed.pages site hs url).symm

theorem Project.reproduces (project : Project c S T start) (akin : Akin T start w)
    (fixed : start.Fixed c w.files) (mem : p ∈ c.sourceFiles w.files) (rendered : Rendered w p) :
    c.Reproduces w.files p := by
  obtain ⟨again, started, new, files, same⟩ := startSession_fixed project akin fixed
  exact ⟨again, started, fun faultless =>
    output_of_rendered project akin files same new faultless mem rendered⟩

/-! ## Where nothing is left to do -/

namespace Watching

variable {s : Watching}

/-- All that was edited was built, and the last batch did not fail. -/
structure Rests (s : Watching) : Prop where
  healthy : s.loop.lastFailed = false
  noticed : s.loop.registryChanged = false
  built : s.loop.changes = []
  edited : s.edited = []

theorem rests_first (built : (start.buildAll c).1 = .ok ()) : (first c start).Rests := by
  unfold first
  rw [built]
  exact ⟨rfl, rfl, rfl, rfl⟩

end Watching

/-- The loop of a project has nothing left to do. -/
structure AtRest (c : Configuration) (S T : Place) (start : Workbench) (s : Watching) : Prop where
  project : Project c S T start
  invariant : Watching.Invariant c T start s
  rests : s.Rests

namespace AtRest

variable {s : Watching} {files : FileSystem} (h : AtRest c S T start s)
include h

theorem healthy : s.loop.Healthy :=
  ⟨h.rests.noticed, h.rests.healthy, h.invariant.resting⟩

theorem akin : Akin T start s.loop.bench := h.invariant.leaves.akin

theorem layout : s.loop.bench.session.layout = c.layout :=
  h.akin.view.layout.symm.trans h.project.layout

theorem setting : Setting (c.Compilable start) S T s.loop.bench := h.invariant.setting h.project

theorem mem_sourceFiles : p ∈ c.sourceFiles s.loop.bench.files ↔
    (∃ names contents, p = pathOf (S ++ names) ∧
      (S ++ names, .file contents) ∈ s.loop.bench.files.entries) ∧
        p.isTemplate = true ∧ p.fileName?.getD "" ∉ ignoredFiles :=
  h.project.mem_sourceFiles h.akin

theorem compilable (mem : p ∈ c.sourceFiles s.loop.bench.files) : c.Compilable start p :=
  .inl (h.project.sourceFiles h.akin ▸ mem)

theorem current (mem : p ∈ c.sourceFiles s.loop.bench.files) :
    Current (c.Compilable start) s.loop.bench p := by
  apply h.invariant.current h.rests.healthy h.rests.noticed p (h.project.sourceFiles h.akin ▸ mem)
  rw [h.rests.built, h.rests.edited]
  exact fun y mem => absurd mem List.not_mem_nil

theorem pages (fixed : start.Fixed c files) (site : Docs.Site) (url : String)
    (hs : s.loop.bench.session.docs = some site) :
    (site.page s.loop.bench.files url).toOption = (site.page files url).toOption := by
  have hs := h.akin.view.docs.trans hs
  rw [h.invariant.fixed.pages site hs, fixed.pages site hs]

end AtRest

end SchemaLoom
