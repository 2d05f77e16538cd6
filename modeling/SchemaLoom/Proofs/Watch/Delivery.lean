import Mathlib.Logic.Function.Iterate
import SchemaLoom.Json.Equality
import SchemaLoom.Proofs.Session.Gathering
import SchemaLoom.Proofs.Session.Standalone
import SchemaLoom.Proofs.Watch.Intake
import SchemaLoom.Proofs.Watch.Poisoning

/-!
# No change is lost

A template that changed is compiled with the next batch: it is queued, deletions come before a
batch, and a batch takes the whole queue or builds the whole source tree. From then on its output is
up to date, whatever happens to other templates, as long as nothing changes that compiling it reads.
-/

namespace SchemaLoom

open Compile FileSystem

variable {c : Configuration} {l : WatchLoop} {p : Path} {S : Place} {run : Chronicle}
  {bench : Workbench} {moves : List Move} {m : Move}

/-! ## Draining -/

namespace WatchLoop

theorem tick_of_deletion {source : Path} {rest : List Path} (queue : l.deletions = source :: rest) :
    l.tick.1 = .deleted source ∧ l.tick.2.deletions = rest ∧
      l.tick.2.rebuildsAll = l.rebuildsAll := by
  rcases l.tick_cases with ⟨source', rest', queue', same⟩ | ⟨drained, -⟩ | ⟨drained, -⟩
  · obtain ⟨rfl, rfl⟩ := List.cons.inj (queue.symm.trans queue')
    obtain ⟨bench, after⟩ := delete_cases { l with deletions := rest } source
    rw [same, after]
    exact ⟨rfl, rfl, rfl⟩
  · simp [drained] at queue
  · simp [drained] at queue

theorem idle_of_built (drained : l.deletions = []) : l.checkRegistry.build.2.tick.1 = .idle := by
  obtain ⟨bench, -, built⟩ := l.checkRegistry.build_cases
  obtain ⟨base, checked, -⟩ := l.checkRegistry_cases
  rw [built, tick_eq (by rw [checked]; exact drained),
    checkRegistry_of_unchanged (by rw [checked])]
  rfl

/-- A batch in which every template compiles ends with an idle loop. -/
theorem tick_of_run {v : Workbench} (drained : l.deletions = [])
    (unchanged : l.registryChanged = false)
    (queued : l.changes ≠ [])
    (run : (l.bench.say "watch" l.plan.2).newGeneration.compileAll l.plan.1 = ([], v)) :
    ∃ report after, l.tick = (.built report, after) ∧ report.isOk = true ∧ after.tick.1 = .idle ∧
      after.bench = v.summarize ⟨v.session.cache.compiled, v.session.written, []⟩ := by
  have batch : l.batch = (⟨v.session.cache.compiled, v.session.written, []⟩, v) := by
    rw [WatchLoop.batch]
    exact Workbench.compileBatch_of_run run
  have idle := l.idle_of_built drained
  have same := checkRegistry_of_unchanged unchanged
  rcases l.tick_cases with ⟨_, _, queue, -⟩ | ⟨-, ⟨nothing, -⟩, -⟩ | ⟨-, -, tick⟩
  · simp [drained] at queue
  · exact absurd nothing queued
  · rw [same] at tick idle
    have ok : l.batch.1.isOk = true := by
      rw [batch]
      rfl
    refine ⟨_, _, tick, ok, idle, ?_⟩
    rw [build_of_isOk ok]
    show l.reported = _
    unfold reported
    rw [batch]

/-- Deletions are taken one by one, a batch builds all that is queued, and then the loop is idle. -/
theorem idle_soon (resting : l.rebuildsAll = false) : ∃ n ≤ l.deletions.length + 1,
    ((fun l => l.tick.2)^[n] l).tick.1 = .idle := by
  induction queue : l.deletions generalizing l with
  | nil =>
    rcases l.tick_cases with ⟨_, _, queued, -⟩ | ⟨-, -, same⟩ | ⟨-, -, same⟩
    · simp [queue] at queued
    · exact ⟨0, Nat.zero_le _, by rw [Function.iterate_zero_apply, same]⟩
    · refine ⟨1, Nat.le_refl _, ?_⟩
      rw [Function.iterate_one, same]
      exact idle_of_built queue
  | cons source rest ih =>
    obtain ⟨-, left, still⟩ := tick_of_deletion queue
    obtain ⟨n, bound, idle⟩ := ih (still.trans resting) left
    exact ⟨n + 1, Nat.succ_le_succ bound, idle⟩

end WatchLoop

namespace Chronicle

theorem after_concat (bench : Workbench) (c : Configuration) (moves : List Move) (m : Move) :
    after bench c (moves ++ [m]) = (after bench c moves).move m := List.foldl_concat _ _ _ _

theorem tick_fst (bench : Workbench) (c : Configuration) (moves : List Move) :
    (after bench c moves).guarded.tick.1 = some (after bench c moves).guarded.loop.tick.1 := by
  rw [GuardedLoop.tick_of_resting (after_summarizes bench c moves).1]

theorem after_tick (bench : Workbench) (c : Configuration) (moves : List Move) :
    (after bench c (moves ++ [.tick])).guarded.loop =
      (after bench c moves).guarded.loop.tick.2 := by
  rw [after_concat]
  show (after bench c moves).guarded.tick.2.loop = _
  rw [GuardedLoop.tick_of_resting (after_summarizes bench c moves).1]

theorem after_ticks (bench : Workbench) (c : Configuration) (moves : List Move) (n : Nat) :
    (after bench c (moves ++ List.replicate n .tick)).guarded.loop =
      (fun l => l.tick.2)^[n] (after bench c moves).guarded.loop := by
  induction n with
  | zero => rw [List.replicate_zero, List.append_nil, Function.iterate_zero_apply]
  | succ n ih =>
    rw [List.replicate_succ', ← List.append_assoc, after_tick, ih, Function.iterate_succ_apply']

theorem idle_soon (bench : Workbench) (c : Configuration) (moves : List Move) :
    ∃ n ≤ (after bench c moves).guarded.loop.deletions.length + 1,
      (after bench c (moves ++ List.replicate n .tick)).guarded.tick.1 = some .idle := by
  obtain ⟨n, bound, idle⟩ := WatchLoop.idle_soon (after_summarizes bench c moves).2.resting
  exact ⟨n, bound, by rw [tick_fst, after_ticks, idle]⟩

end Chronicle

/-! ## What the loop is told -/

namespace WatchLoop

/-- What the loop takes notice of when something is done to it. -/
def news (l : WatchLoop) : Move → List Happening
  | .change path => l.notice .changed path
  | .removal path => l.notice .removed path
  | .event event => event.paths.flatMap (l.noticePath event.kind)
  | .markFailed | .edit _ | .tick => []

/-- The queues grow by what the loop takes notice of, and the workbench stays. -/
structure Learns (l : WatchLoop) (news : List Happening) (l' : WatchLoop) : Prop where
  bench : l'.bench = l.bench
  configured : l'.configuration = l.configuration
  changes : l'.changes = l.changes ++ news.flatMap Happening.queues
  deletions : l'.deletions = l.deletions ++ news.filterMap Happening.removal?

theorem enqueueChange_learns (l : WatchLoop) (path : Path) :
    l.Learns (l.notice .changed path) (l.enqueueChange path) := by
  unfold notice enqueueChange
  cases l.categorize path <;> constructor <;> simp [Happening.queues, Happening.removal?]

theorem enqueueRemoval_learns (l : WatchLoop) (path : Path) :
    l.Learns (l.notice .removed path) (l.enqueueRemoval path) := by
  unfold notice enqueueRemoval
  cases l.categorize path <;> constructor <;> simp [Happening.queues, Happening.removal?]

theorem intakePath_learns (l : WatchLoop) (kind : EventKind) (path : Path) :
    l.Learns (l.noticePath kind path) (l.intakePath kind path) := by
  unfold noticePath intakePath
  split
  · exact l.enqueueRemoval_learns path
  · exact l.enqueueChange_learns path

theorem intake_learns (l : WatchLoop) (event : WatchEvent) :
    l.Learns (event.paths.flatMap (l.noticePath event.kind)) (l.intake event) := by
  unfold intake
  generalize event.paths = paths
  induction paths generalizing l with
  | nil => exact ⟨rfl, rfl, (List.append_nil _).symm, (List.append_nil _).symm⟩
  | cons path paths ih =>
    have first := l.intakePath_learns event.kind path
    have rest := ih (l.intakePath event.kind path)
    rw [noticePath_congr first.bench first.configured] at rest
    refine ⟨rest.bench.trans first.bench, rest.configured.trans first.configured, ?_, ?_⟩
    · rw [List.foldl_cons, rest.changes, first.changes, List.flatMap_cons, List.flatMap_append,
        List.append_assoc]
    · rw [List.foldl_cons, rest.deletions, first.deletions, List.flatMap_cons,
        List.filterMap_append, List.append_assoc]

end WatchLoop

/-- A template of the source tree, at its canonical path, that the loop takes notice of. -/
structure Configuration.Watches (c : Configuration) (S : Place) (p : Path) : Prop where
  source : c.source = pathOf S
  output : c.output.isAbsolute = true
  below : ∃ names, names ≠ [] ∧ ValidPlace (S ++ names) ∧ p = pathOf (S ++ names)
  template : p.isTemplate = true
  visible : p.isHidden = false
  registry : c.registry.any p.same = false

namespace Configuration.Watches

variable (watches : c.Watches S p)
include watches

theorem notice (configured : l.configuration = c) (found : l.bench.files.isFile p = true) :
    l.notice .changed p = [.changed p] := by
  obtain ⟨names, -, valid, rfl⟩ := watches.below
  obtain ⟨place, contents, hf⟩ := isFile_iff.mp found
  obtain ⟨rfl, -⟩ := find_leadsTo (leadsTo_pathOf valid) hf
  have file : l.bench.files.HasFile (pathOf (S ++ names)) := ⟨_, contents, hf, rfl⟩
  have inside : (pathOf (S ++ names)).startsWith c.source = true := by
    rw [watches.source, (leadsTo_pathOf valid).startsWith_iff (leadsTo_pathOf valid.left)]
    exact List.prefix_append S names
  have category : l.categorize (pathOf (S ++ names)) = .template := by
    rw [WatchLoop.categorize, configured, Configuration.categorize_of_file file watches.registry,
      inside, watches.template, watches.visible]
    rfl
  unfold WatchLoop.notice
  rw [category, file.normalizePath]

theorem mem_sourceFiles {files : FileSystem} (wf : WellFormed files)
    (found : files.isFile p = true) : p ∈ c.sourceFiles files := by
  obtain ⟨names, ne, valid, rfl⟩ := watches.below
  obtain ⟨place, contents, hf⟩ := isFile_iff.mp found
  obtain ⟨rfl, file⟩ := find_leadsTo (leadsTo_pathOf valid) hf
  unfold Configuration.sourceFiles
  rw [mem_templatesBelow, watches.source, mem_filesBelow wf (find_above valid ne hf)]
  exact ⟨⟨names, contents, rfl, mem_entries file (by simp [ne])⟩, watches.template,
    Path.not_mem_ignoredFiles watches.template⟩

end Configuration.Watches

/-! ## The layout of the outputs -/

namespace WatchLoop

theorem delete_bench (l : WatchLoop) (source : Path) :
    (l.delete source).bench.session =
        { l.bench.session with imports := l.bench.session.imports.remove source } ∧
      ((l.delete source).bench.files = l.bench.files ∨
        l.bench.files.removeFile (l.bench.session.layout.outputFor source) =
          .ok (l.delete source).bench.files) := by
  unfold delete removeOutput
  simp only
  split
  · rename_i files removed
    exact ⟨rfl, .inr removed⟩
  · exact ⟨rfl, .inl rfl⟩
  · exact ⟨rfl, .inl rfl⟩

theorem tick_bench_of_deletion {source : Path} {rest : List Path}
    (queue : l.deletions = source :: rest) :
    (∃ imports, l.tick.2.bench.session = { l.bench.session with imports }) ∧
      (l.tick.2.bench.files = l.bench.files ∨
        l.bench.files.removeFile (l.bench.session.layout.outputFor source) =
          .ok l.tick.2.bench.files) := by
  have deleted := delete_bench { l with deletions := rest } source
  have tick : { l with deletions := rest }.delete source = l.tick.2 := by
    unfold tick
    rw [queue]
  rw [tick] at deleted
  exact ⟨⟨_, deleted.1⟩, deleted.2⟩

theorem readText_tick {source : Path} {rest : List Path} {text : String}
    (queue : l.deletions = source :: rest)
    (absolute : l.bench.session.layout.output.isAbsolute = true)
    (apart : ¬ l.bench.session.layout.SharesOutput source p)
    (read : l.bench.files.readText (l.bench.session.layout.outputFor p) = .ok text) :
    l.tick.2.bench.files.readText (l.bench.session.layout.outputFor p) = .ok text := by
  obtain ⟨-, files⟩ := tick_bench_of_deletion queue
  generalize l.tick.2.bench.files = deleted at files ⊢
  rcases files with rfl | removed
  · exact read
  · exact readText_removeFile removed (Layout.outputFor_isAbsolute absolute p)
      (fun place first second => apart ⟨_, place, first, second⟩) read

theorem build_quiet (l : WatchLoop) :
    Quiet ((l.bench.say "watch" l.plan.2).compileBatch l.plan.1).2 l.build.2.bench := by
  obtain ⟨bench, quiet, built⟩ := l.build_cases
  rw [built]
  exact (quiet_summarize _ l.batch.1).trans quiet

theorem checkRegistry_layout (l : WatchLoop) :
    l.checkRegistry.bench.session.layout = l.bench.session.layout := by
  obtain ⟨bench, checked, -, ⟨registry, session⟩, -⟩ := l.checkRegistry_cases
  rw [checked, session]

theorem tick_layout (absolute : l.bench.session.layout.output.isAbsolute = true) :
    l.tick.2.bench.session.layout = l.bench.session.layout := by
  rcases l.tick_cases with ⟨source, rest, queue, -⟩ | ⟨-, -, same⟩ | ⟨-, -, same⟩
  · obtain ⟨⟨imports, session⟩, -⟩ := tick_bench_of_deletion queue
    rw [session]
  · rw [same]
  · have recorded : Recorded (l.checkRegistry.bench.say "watch" l.checkRegistry.plan.2) []
        ((l.checkRegistry.bench.say "watch" l.checkRegistry.plan.2).compileBatch
          l.checkRegistry.plan.1).2 :=
      (Recorded.steady (l.checkRegistry_layout ▸ absolute)).compileAll (recorded_newGeneration _)
        (fun _ _ => trivial) fun _ _ _ => id
    have later := recorded.later.trans (.quiet l.checkRegistry.build_quiet)
    rw [same]
    exact later.layout.trans l.checkRegistry_layout

end WatchLoop

namespace Chronicle

theorem learns (bench : Workbench) (c : Configuration) (moves : List Move) (m : Move) :
    (∃ files, m = .edit files ∧ (after bench c (moves ++ [m])).guarded.loop =
      { (after bench c moves).guarded.loop with
        bench := { (after bench c moves).guarded.loop.bench with files } }) ∨
    (m = .tick ∧ (after bench c (moves ++ [m])).guarded.loop =
      (after bench c moves).guarded.loop.tick.2) ∨
    (after bench c moves).guarded.loop.Learns ((after bench c moves).guarded.loop.news m)
      (after bench c (moves ++ [m])).guarded.loop := by
  cases m with
  | edit files => exact .inl ⟨files, rfl, by rw [after_concat]; rfl⟩
  | tick => exact .inr (.inl ⟨rfl, after_tick bench c moves⟩)
  | change path =>
    exact .inr (.inr (after_concat bench c moves _ ▸ WatchLoop.enqueueChange_learns _ path))
  | removal path =>
    exact .inr (.inr (after_concat bench c moves _ ▸ WatchLoop.enqueueRemoval_learns _ path))
  | event event =>
    exact .inr (.inr (after_concat bench c moves _ ▸ WatchLoop.intake_learns _ event))
  | markFailed =>
    exact .inr (.inr (after_concat bench c moves _ ▸
      ⟨rfl, rfl, (List.append_nil _).symm, (List.append_nil _).symm⟩))

theorem after_layout (absolute : c.output.isAbsolute = true)
    (layout : bench.session.layout = c.layout) (moves : List Move) :
    (after bench c moves).guarded.loop.bench.session.layout = c.layout := by
  induction moves using List.reverseRecOn with
  | nil => exact layout
  | append_singleton moves m ih =>
    rcases learns bench c moves m with ⟨files, -, same⟩ | ⟨-, same⟩ | learns
    · rw [same]
      exact ih
    · rw [same, WatchLoop.tick_layout (by rw [ih]; exact absolute), ih]
    · rw [learns.bench, ih]

end Chronicle

/-! ## What may happen meanwhile -/

/-- Nothing that compiling a template reads has changed, and it compiles. -/
structure Stays (p : Path) (w v : Workbench) : Prop where
  undisturbed : Undisturbed p w v
  steadfast : Steadfast p v

/-- Before and after a batch a template compiles, and in the batch it does not fail. What else is
compiled leaves it alone. -/
structure Bears (p : Path) (l : WatchLoop) (report : BatchReport) : Prop where
  before : Steadfast p l.checkRegistry.bench
  after : Steadfast p l.tick.2.bench
  fine : l.tick.2.bench.Fine (Unobtrusive p l.checkRegistry.bench)
  succeeds : p ∉ report.failing

/-- Where the outputs stand apart from the sources, a batch only has to leave the output to the
template. -/
theorem Bears.of_sound {T : Place} (sound : l.checkRegistry.bench.Sound S T) (hp : Admits T p)
    (tick : l.tick = (.built l.checkRegistry.build.1, l.checkRegistry.build.2))
    (admitted : ∀ q ∈ l.checkRegistry.plan.1, Admits T q) {s t : CompiledSchema}
    (before : (l.checkRegistry.bench.newGeneration.compile p).1 = .ok s)
    (after : (l.tick.2.bench.newGeneration.compile p).1 = .ok t)
    (apart : ∀ u, l.tick.2.bench.Stores u → Admits T u.source → u.source ≠ p →
      ¬ l.checkRegistry.bench.session.layout.SharesOutput u.source p)
    (succeeds : p ∉ l.checkRegistry.build.1.failing) : Bears p l l.checkRegistry.build.1 := by
  have confined : Confined T l.checkRegistry.bench [] l.tick.2.bench := by
    rw [tick]
    exact sound.confined_batch (Compile.quiet_say _ _ _) admitted l.checkRegistry.build_quiet
  refine ⟨sound.steadfast hp before, (sound.of_confined confined).steadfast hp after,
    fun u hu => ?_, succeeds⟩
  obtain ⟨hu', document, read⟩ := confined.sources _ u hu
  exact sound.unobtrusive hp before hu' read fun exported => apart u ⟨hu, exported⟩ hu'

/-- What is done to a loop changes nothing for a template: neither is its output deleted or written
by others, nor is anything changed that compiling it reads. -/
structure Spares (p : Path) (l : WatchLoop) (m : Move) : Prop where
  removals : ∀ q, .removed q ∈ l.news m → ¬ l.bench.session.layout.SharesOutput q p
  edits : ∀ files, m = .edit files → Stays p l.bench { l.bench with files } ∧
    files.readText (l.bench.session.layout.outputFor p) =
      l.bench.files.readText (l.bench.session.layout.outputFor p)
  deletions : m = .tick → ∀ source, l.tick.1 = .deleted source → Stays p l.bench l.tick.2.bench
  batches : m = .tick → ∀ report, l.tick.1 = .built report → Bears p l report

/-- Everything that is done after a run spares the template. -/
def Calm (bench : Workbench) (c : Configuration) (p : Path) (moves later : List Move) : Prop :=
  ∀ before m since, later = before ++ m :: since →
    Spares p (Chronicle.after bench c (moves ++ before)).guarded.loop m

/-! ## From the queue to the output -/

/-- The output of a template is up to date, and no deletion of it waits. -/
structure Delivered (p : Path) (l : WatchLoop) : Prop where
  steadfast : Steadfast p l.bench
  upToDate : l.bench.UpToDate p
  undeleted : ∀ q ∈ l.deletions, ¬ l.bench.session.layout.SharesOutput q p

/-- A template waits for the next batch, or its output is up to date. -/
def Underway (p : Path) (l : WatchLoop) : Prop := p ∈ l.changes ∨ Delivered p l

namespace Configuration.Watches

variable (watches : c.Watches S p) (configured : l.configuration = c)
include watches configured

/-- A queued template belongs to the next batch, whether that builds the queue or everything. -/
theorem mem_plan (wf : WellFormed l.bench.files) (found : l.bench.files.isFile p = true)
    (covered : p ∈ l.changes ∨ l.rebuildsAll = true) : p ∈ l.plan.1 := by
  by_cases all : l.rebuildsAll = true ∨ l.lastFailed = true
  · rw [WatchLoop.plan_of_all all, configured]
    exact watches.mem_sourceFiles wf found
  · simp only [not_or, Bool.not_eq_true] at all
    rw [WatchLoop.plan_of_partly all.1 all.2]
    exact List.mem_append_left _ (covered.resolve_right (by simp [all.1]))

/-- A batch leaves the output up to date. -/
theorem delivered_of_built (absolute : l.bench.session.layout.output.isAbsolute = true)
    (drained : l.deletions = []) (h : Underway p l)
    (tick : l.tick = (.built l.checkRegistry.build.1, l.checkRegistry.build.2))
    (bears : Bears p l l.checkRegistry.build.1) : Delivered p l.checkRegistry.build.2 := by
  obtain ⟨before, after, fine, succeeds⟩ := bears
  rw [tick] at after fine
  obtain ⟨bench, -, built⟩ := l.checkRegistry.build_cases
  obtain ⟨base, checked, -⟩ := l.checkRegistry_cases
  have ran := l.checkRegistry.build_quiet
  have ground : SameGround l.checkRegistry.bench
      (l.checkRegistry.bench.say "watch" l.checkRegistry.plan.2) := ⟨rfl, rfl, rfl, rfl, rfl⟩
  refine ⟨after, ?_, ?_⟩
  · refine before.batch (l.checkRegistry_layout ▸ absolute) ground ran fine after ?_
    by_cases planned : p ∈ l.checkRegistry.plan.1
    · rw [knows_quiet ran]
      exact .inl (knows_of_not_listed planned fun e listed =>
        succeeds (BatchReport.mem_failing.mpr ⟨e, listed⟩))
    · -- Neither was the template queued nor has the registry changed.
      have uncovered : ¬ (p ∈ l.checkRegistry.changes ∨ l.checkRegistry.rebuildsAll = true) :=
        fun covered => planned (watches.mem_plan (by rw [checked]; exact configured) before.files
          before.isFile covered)
      rw [checked] at uncovered
      simp only [not_or, Bool.or_eq_true, Bool.not_eq_true] at uncovered
      obtain ⟨unqueued, -, still⟩ := uncovered
      rw [WatchLoop.checkRegistry_of_unchanged still]
      exact .inr (h.resolve_left unqueued).upToDate
  · intro q mem
    rw [built, checked, drained] at mem
    simp at mem

theorem underway_tick (absolute : l.bench.session.layout.output.isAbsolute = true)
    (queued : p ∈ l.changes) (spares : Spares p l .tick) : Underway p l.tick.2 := by
  rcases l.tick_cases with ⟨source, rest, queue, same⟩ | ⟨-, -, same⟩ | ⟨drained, -, same⟩
  · obtain ⟨bench, after⟩ := WatchLoop.delete_cases { l with deletions := rest } source
    rw [same, after]
    exact .inl (List.mem_append_left _ queued)
  · rw [same]
    exact .inl queued
  · have bears := spares.batches rfl _ (by rw [same])
    rw [same]
    exact .inr (watches.delivered_of_built configured absolute drained (.inl queued) same bears)

theorem delivered_tick (absolute : l.bench.session.layout.output.isAbsolute = true)
    (h : Delivered p l) (spares : Spares p l .tick) : Delivered p l.tick.2 := by
  rcases l.tick_cases with ⟨source, rest, queue, same⟩ | ⟨-, -, same⟩ | ⟨drained, -, same⟩
  · obtain ⟨undisturbed, steadfast⟩ := spares.deletions rfl source (by rw [same])
    have apart : ∀ q ∈ source :: rest, ¬ l.bench.session.layout.SharesOutput q p :=
      queue ▸ h.undeleted
    refine ⟨steadfast, h.upToDate.undisturbed absolute h.steadfast steadfast undisturbed ?_, ?_⟩
    · exact fun text => WatchLoop.readText_tick queue absolute (apart source List.mem_cons_self)
    · rw [(WatchLoop.tick_of_deletion queue).2.1, WatchLoop.tick_layout absolute]
      exact fun q mem => apart q (List.mem_cons_of_mem _ mem)
  · rw [same]
    exact h
  · have bears := spares.batches rfl _ (by rw [same])
    rw [same]
    exact watches.delivered_of_built configured absolute drained (.inr h) same bears

end Configuration.Watches

/-! ## Runs -/

/-- A move tells the loop of a change of a template. -/
inductive Move.Tells (p : Path) : Move → Prop where
  | change : Tells p (.change p)
  | event {event : WatchEvent} : p ∈ event.paths → event.kind ≠ .remove → Tells p (.event event)

namespace Configuration.Watches

open Chronicle

variable (watches : c.Watches S p) (layout : bench.session.layout = c.layout)
include watches

theorem queued_of_tells (tells : m.Tells p)
    (found : (after bench c moves).guarded.loop.bench.files.isFile p = true) :
    p ∈ (after bench c (moves ++ [m])).guarded.loop.changes := by
  have news := watches.notice (after_summarizes bench c moves).2.configured found
  obtain ⟨place, contents, hf⟩ := isFile_iff.mp found
  have exist : (after bench c moves).guarded.loop.bench.files.pathExists p = true := by
    unfold FileSystem.pathExists
    rw [hf]
  rw [after_concat]
  cases tells with
  | change =>
    have learns := (after bench c moves).guarded.loop.enqueueChange_learns p
    rw [news] at learns
    show p ∈ (WatchLoop.enqueueChange _ p).changes
    rw [learns.changes]
    exact List.mem_append_right _ (List.mem_singleton_self p)
  | @event event mem kind =>
    have learns := (after bench c moves).guarded.loop.intake_learns event
    show p ∈ (WatchLoop.intake _ event).changes
    rw [learns.changes]
    refine List.mem_append_right _
      (List.mem_flatMap.mpr ⟨.changed p, ?_, List.mem_singleton_self p⟩)
    refine List.mem_flatMap.mpr ⟨p, mem, ?_⟩
    unfold WatchLoop.noticePath
    rw [exist, news]
    simp [kind]

include layout

/-- A move leaves a queued template queued until it is delivered, and then it stays so. -/
theorem underway_concat (spares : Spares p (after bench c moves).guarded.loop m) :
    (p ∈ (after bench c moves).guarded.loop.changes →
      Underway p (after bench c (moves ++ [m])).guarded.loop) ∧
    (Delivered p (after bench c moves).guarded.loop →
      Delivered p (after bench c (moves ++ [m])).guarded.loop) := by
  have configured := (after_summarizes bench c moves).2.configured
  have absolute :
      (after bench c moves).guarded.loop.bench.session.layout.output.isAbsolute = true := by
    rw [after_layout watches.output layout moves]
    exact watches.output
  rcases learns bench c moves m with ⟨files, rfl, same⟩ | ⟨rfl, same⟩ | learns
  · rw [same]
    refine ⟨.inl, fun h => ?_⟩
    obtain ⟨⟨undisturbed, steadfast⟩, output⟩ := spares.edits files rfl
    refine ⟨steadfast, h.upToDate.undisturbed absolute h.steadfast steadfast undisturbed ?_,
      h.undeleted⟩
    exact fun text read => output.trans read
  · rw [same]
    exact ⟨fun queued => watches.underway_tick configured absolute queued spares,
      fun h => watches.delivered_tick configured absolute h spares⟩
  · refine ⟨fun queued => .inl ?_, fun h => ⟨?_, ?_, ?_⟩⟩
    · rw [learns.changes]
      exact List.mem_append_left _ queued
    · rw [learns.bench]
      exact h.steadfast
    · rw [learns.bench]
      exact h.upToDate
    · intro q mem
      rw [learns.bench]
      rw [learns.deletions] at mem
      rcases List.mem_append.mp mem with mem | mem
      · exact h.undeleted q mem
      · obtain ⟨happening, noticed, removed⟩ := List.mem_filterMap.mp mem
        cases happening with
        | removed template => exact Option.some.inj removed ▸ spares.removals _ noticed
        | _ => cases removed

theorem underway_after {later : List Move} (calm : Calm bench c p moves later) :
    (p ∈ (after bench c moves).guarded.loop.changes →
      Underway p (after bench c (moves ++ later)).guarded.loop) ∧
    (Delivered p (after bench c moves).guarded.loop →
      Delivered p (after bench c (moves ++ later)).guarded.loop) := by
  induction later using List.reverseRecOn with
  | nil =>
    rw [List.append_nil]
    exact ⟨.inl, id⟩
  | append_singleton later m ih =>
    have earlier : Calm bench c p moves later := fun before n since split =>
      calm before n (since ++ [m]) (by rw [split]; simp)
    obtain ⟨queued, delivered⟩ := watches.underway_concat layout (calm later m [] rfl)
    rw [List.append_assoc] at queued delivered
    refine ⟨fun waits => ?_, fun h => delivered ((ih earlier).2 h)⟩
    rcases (ih earlier).1 waits with waits | h
    · exact queued waits
    · exact .inr (delivered h)

end Configuration.Watches

/-- What becomes of a change that a loop was told of. -/
structure Settles (bench : Workbench) (c : Configuration) (p : Path) (told later : List Move) :
    Prop where
  /-- Deletions are carried out in the order in which they were noticed. -/
  order : History.removals (Chronicle.after bench c (told ++ later)).history =
    History.deletions (Chronicle.after bench c (told ++ later)).history ++
      (Chronicle.after bench c (told ++ later)).guarded.loop.deletions
  /-- A tick takes one of them, and no batch runs while one waits. -/
  single : ∀ source rest,
    (Chronicle.after bench c (told ++ later)).guarded.loop.deletions = source :: rest →
      (Chronicle.after bench c (told ++ later)).guarded.tick.1 = some (.deleted source) ∧
      (Chronicle.after bench c (told ++ later ++ [.tick])).guarded.loop.deletions = rest
  /-- Without new events the loop is idle after so many ticks, and one for a batch. -/
  idle : ∃ n ≤ (Chronicle.after bench c (told ++ later)).guarded.loop.deletions.length + 1,
    (Chronicle.after bench c (told ++ later ++ List.replicate n .tick)).guarded.tick.1 = some .idle
  /-- From the first idle tick on the output is up to date. -/
  upToDate : ∀ before since, later = before ++ .tick :: since →
    (Chronicle.after bench c (told ++ before)).guarded.tick.1 = some .idle →
      (Chronicle.after bench c (told ++ later)).guarded.loop.bench.UpToDate p

theorem change_reaches_output (watches : c.Watches S p) (layout : bench.session.layout = c.layout)
    (earlier later : List Move) (tells : m.Tells p)
    (found : (Chronicle.after bench c earlier).guarded.loop.bench.files.isFile p = true)
    (calm : Calm bench c p (earlier ++ [m]) later) :
    Settles bench c p (earlier ++ [m]) later where
  order := (Chronicle.after_summarizes bench c _).2.deletions
  single source rest queue := by
    obtain ⟨deleted, left, -⟩ := WatchLoop.tick_of_deletion queue
    rw [Chronicle.tick_fst, deleted, Chronicle.after_tick]
    exact ⟨rfl, left⟩
  idle := Chronicle.idle_soon bench c _
  upToDate before since split idle := by
    have queued := watches.queued_of_tells tells found
    have first : Calm bench c p (earlier ++ [m]) before := fun front n back same =>
      calm front n (back ++ .tick :: since) (by rw [split, same]; simp)
    have rest : Calm bench c p (earlier ++ [m] ++ before) (.tick :: since) := by
      intro front n back same
      rw [List.append_assoc]
      exact calm (before ++ front) n back (by rw [split, same]; simp)
    -- An idle loop has nothing queued, so the template is delivered.
    have summary := (Chronicle.after_summarizes bench c (earlier ++ [m] ++ before)).2
    rw [Chronicle.tick_fst, Option.some_inj, summary.idle_iff, ← summary.changes] at idle
    have delivered := ((watches.underway_after layout first).1 queued).resolve_left fun waits => by
      rw [idle.2.1] at waits
      cases waits
    rw [split, ← List.append_assoc]
    exact ((watches.underway_after layout rest).2 delivered).upToDate

/-! ## A template of its own -/

/-- A project with one template. -/
def oneTemplate : List (Place × Entry) :=
  [(["src"], .directory), (["src", "p.yml"], .file (.text "type: string"))]

theorem oneTemplate_sound : (plainSession oneTemplate).Sound ["src"] ["out"] :=
  ⟨⟨plainConfiguration_trees, .ofEntries (by decide) (by decide), by decide⟩, fun _ h => by
    simp [plainSession, Session.start] at h⟩

theorem oneTemplate_watches : plainConfiguration.Watches ["src"] ⟨"/src/p.yml"⟩ where
  source := plainConfiguration_trees.sourceAt
  output := by decide
  below := ⟨["p.yml"], by decide, by decide, by decide⟩
  template := by decide
  visible := by decide
  registry := rfl

/-- The loop that was told of the template. -/
def oneTemplateTold : WatchLoop :=
  (Chronicle.after (plainSession oneTemplate) plainConfiguration
    [.change ⟨"/src/p.yml"⟩]).guarded.loop

/-- What the evaluation of that loop shows: its batch compiles the template only. -/
theorem oneTemplateTold_facts :
    (oneTemplateTold.deletions = [] ∧ oneTemplateTold.changes = [⟨"/src/p.yml"⟩] ∧
      oneTemplateTold.registryChanged = false) ∧
    oneTemplateTold.checkRegistry.plan.1 = [⟨"/src/p.yml"⟩] ∧
    (oneTemplateTold.checkRegistry.bench.newGeneration.compile ⟨"/src/p.yml"⟩).1.toOption.isSome ∧
    (oneTemplateTold.tick.2.bench.newGeneration.compile ⟨"/src/p.yml"⟩).1.toOption.isSome ∧
    oneTemplateTold.checkRegistry.build.1.failing = [] ∧
    oneTemplateTold.tick.2.bench.session.cache.entries.map Prod.fst = [⟨"/src/p.yml"⟩] := by
  decide +kernel

theorem oneTemplateTold_tick : oneTemplateTold.tick =
    (.built oneTemplateTold.checkRegistry.build.1, oneTemplateTold.checkRegistry.build.2) := by
  obtain ⟨⟨drained, queued, -⟩, -⟩ := oneTemplateTold_facts
  rcases oneTemplateTold.tick_cases with ⟨_, _, queue, -⟩ | ⟨-, nothing, -⟩ | ⟨-, -, same⟩
  · simp [drained] at queue
  · simp [queued] at nothing
  · exact same

theorem oneTemplateTold_bears :
    Bears ⟨"/src/p.yml"⟩ oneTemplateTold oneTemplateTold.checkRegistry.build.1 := by
  obtain ⟨⟨-, -, unchanged⟩, plan, before, after, faultless, stored⟩ := oneTemplateTold_facts
  obtain ⟨s, before⟩ := exists_ok_of_isSome before
  obtain ⟨t, after⟩ := exists_ok_of_isSome after
  have hp : Admits ["out"] ⟨"/src/p.yml"⟩ := ⟨["src", "p.yml"], by decide, by decide, by decide⟩
  have sound : oneTemplateTold.checkRegistry.bench.Sound ["src"] ["out"] := by
    have learns :=
      (WatchLoop.start (plainSession oneTemplate) plainConfiguration).enqueueChange_learns
      ⟨"/src/p.yml"⟩
    rw [WatchLoop.checkRegistry_of_unchanged unchanged]
    exact learns.bench ▸ oneTemplate_sound
  refine .of_sound sound hp oneTemplateTold_tick ?_ before after ?_ ?_
  · rw [plan]
    exact fun q mem => List.mem_singleton.mp mem ▸ hp
  · intro u hu canonical other
    obtain ⟨q, mem, same⟩ := Cache.mem_of_known hu.1
    have mem := List.mem_map_of_mem (f := Prod.fst) mem
    rw [stored] at mem
    obtain rfl := List.mem_singleton.mp mem
    exact absurd (hp.canonical.eq_of_same canonical.canonical same).symm other
  · simp [faultless]

/-- The template reaches its output with the next two ticks. -/
theorem change_reaches_output_oneTemplate :
    (Move.change ⟨"/src/p.yml"⟩).Tells ⟨"/src/p.yml"⟩ ∧
    (plainSession oneTemplate).files.isFile ⟨"/src/p.yml"⟩ = true ∧
    Calm (plainSession oneTemplate) plainConfiguration ⟨"/src/p.yml"⟩
      ([] ++ [.change ⟨"/src/p.yml"⟩]) [.tick, .tick] ∧
    Settles (plainSession oneTemplate) plainConfiguration ⟨"/src/p.yml"⟩
      ([] ++ [.change ⟨"/src/p.yml"⟩]) [.tick, .tick] := by
  obtain ⟨⟨drained, -⟩, -⟩ := oneTemplateTold_facts
  have built := congrArg Prod.fst oneTemplateTold_tick
  have idle : oneTemplateTold.tick.2.tick.1 = .idle := by
    rw [oneTemplateTold_tick]
    exact WatchLoop.idle_of_built drained
  have calm : Calm (plainSession oneTemplate) plainConfiguration ⟨"/src/p.yml"⟩
      ([] ++ [.change ⟨"/src/p.yml"⟩]) [.tick, .tick] := by
    intro before m since split
    rcases before with _ | ⟨first, _ | ⟨second, before⟩⟩
    · obtain ⟨rfl, rfl⟩ := List.cons.inj split
      show Spares _ oneTemplateTold _
      refine ⟨fun q mem => absurd mem List.not_mem_nil, nofun, fun _ source deleted => ?_,
        fun _ report same => ?_⟩
      · simp [built] at deleted
      · obtain rfl := Tick.built.inj (built.symm.trans same)
        exact oneTemplateTold_bears
    · obtain ⟨rfl, rest⟩ := List.cons.inj split
      obtain ⟨rfl, -⟩ := List.cons.inj rest
      rw [Chronicle.after_tick]
      show Spares _ oneTemplateTold.tick.2 _
      refine ⟨fun q mem => absurd mem List.not_mem_nil, nofun, fun _ source deleted => ?_,
        fun _ report same => ?_⟩
      · simp [idle] at deleted
      · simp [idle] at same
    · simp at split
  have found : (plainSession oneTemplate).files.isFile ⟨"/src/p.yml"⟩ = true := by decide
  exact ⟨.change, found, calm,
    change_reaches_output oneTemplate_watches rfl [] [.tick, .tick] .change
    found calm⟩

/-! ## A template under another spelling -/

/-- A project with a template that takes in what is said in a directory, which is still empty. -/
def gatheringProject : List (Place × Entry) :=
  [(["src"], .directory), (["src", "v"], .directory),
    (["src", "p.yml"], .file (.text ("$IMPORT:\n  type: import_contents_as_conditional_array\n" ++
      "  path: v\n  condition: \x7b\x7d")))]

/-- The loop is told of a template under an unusual spelling before there is one, it is made, and
the loop is told of the template that takes it in. -/
def gatheringMoves : List Move :=
  [.change ⟨"/src/v//d.yml"⟩,
    .edit ((plainSession gatheringProject).files.put ["src", "v", "d.yml"]
      (.file (.text "$DONT_EXPORT: true\ndescription: $id"))),
    .change ⟨"/src/p.yml"⟩]

/-- The loop after that. -/
@[irreducible]
def gatheringTold : WatchLoop :=
  (Chronicle.after (plainSession gatheringProject) plainConfiguration gatheringMoves).guarded.loop

/-- Its batch, before any template. -/
@[irreducible]
def gatheringBatch : Workbench :=
  (gatheringTold.bench.say "watch" gatheringTold.plan.2).newGeneration

/-- The workbench behind its batch. -/
@[irreducible]
def gathered : Workbench :=
  ((gatheringBatch.saidId ⟨"/src/v//d.yml"⟩).compile ⟨"/src/p.yml"⟩).2

/-- A new generation behind the tick. -/
@[irreducible]
def gatheredAgain : Workbench :=
  (gathered.summarize ⟨gathered.session.cache.compiled, gathered.session.written, []⟩).newGeneration

/-- The workbench on which the other template is compiled for the first one. -/
@[irreducible]
def gatheredAsks : Workbench :=
  gatheringAsks (gatheredAgain.subject ⟨"/src/p.yml"⟩) ⟨"/src/v"⟩ ⟨"/src/v/d.yml"⟩
    (((gatheredAgain.marked ⟨"/src/p.yml"⟩).cleared
      (gatheredAgain.subject ⟨"/src/p.yml"⟩)).recordAll [])

/-- What a new generation makes of the template. -/
@[irreducible]
def gatheredSchema : CompiledSchema :=
  ⟨(gatheredAgain.subject ⟨"/src/p.yml"⟩).id, ⟨"/src/p.yml"⟩,
    .object [("allOf", .array [Import.branch (.object [])
      (saying (gatheredAsks.subject ⟨"/src/v/d.yml"⟩).id)])], true⟩

/-- What the evaluation of that loop shows. -/
theorem gatheringTold_facts :
    (gatheringTold.deletions = [] ∧ gatheringTold.registryChanged = false ∧
      gatheringTold.changes = [⟨"/src/v//d.yml"⟩, ⟨"/src/p.yml"⟩] ∧
      gatheringTold.plan.1 = [⟨"/src/v//d.yml"⟩, ⟨"/src/p.yml"⟩] ∧
      gatheringTold.bench.files.isFile ⟨"/src/p.yml"⟩ = true) ∧
    ((gatheringBatch.files.readTemplate ⟨"/src/v//d.yml"⟩).toOption = some sayingId ∧
      gatheringBatch.session.docs.isNone ∧
      ((gatheringBatch.saidId ⟨"/src/v//d.yml"⟩).compile ⟨"/src/p.yml"⟩).1.toOption.isSome = true) ∧
    ((gatheredAgain.files.readTemplate ⟨"/src/p.yml"⟩).toOption = some gathering ∧
      (gatheredAgain.sources.importDirectory "v").toOption = some ⟨"/src/v"⟩ ∧
      gatheredAgain.sources.variants ⟨"/src/v"⟩ [] = [⟨"/src/v/d.yml"⟩]) ∧
    ((match gatheredAsks.state ⟨"/src/v/d.yml"⟩ with | .unknown => true | _ => false) = true ∧
      (gatheredAsks.files.readTemplate ⟨"/src/v/d.yml"⟩).toOption = some sayingId ∧
      (gatheredAsks.subject ⟨"/src/v/d.yml"⟩).id = "v/d" ∧ gatheredAsks.session.docs.isNone) ∧
    (gatheringImport.table "d").applyJson (.object []) = some (.object []) ∧
    ((gatheringImport.table "d").extend gatheringImport.variableValues).applyJson (saying "v/d") =
        some (saying "v/d") ∧
    (match keep gatheredSchema (gatheredAsks.saidId ⟨"/src/v/d.yml"⟩) with
      | .ok _ _ => true
      | .error _ _ => false) = true ∧
    (gatheredAgain.files.readText ⟨"/out/p.json"⟩).toOption ≠
      some (gatheredAgain.textOf gatheredSchema) := by
  decide +kernel

theorem gathered_compileAll :
    gatheringBatch.compileAll gatheringTold.plan.1 = ([], gathered) := by
  obtain ⟨⟨-, -, -, plan, -⟩, ⟨read, docs, compiled⟩, -⟩ := gatheringTold_facts
  have unknown : gatheringBatch.state ⟨"/src/v//d.yml"⟩ = .unknown := by
    rw [gatheringBatch, state_newGeneration]
  obtain ⟨s, compiled⟩ := exists_ok_of_isSome compiled
  rw [plan]
  apply compileAll_sayingId unknown (eq_ok_of_toOption read) (Option.isNone_iff_eq_none.mp docs)
  exact Prod.ext compiled (by unfold gathered; rfl)

theorem gatheredAgain_compile : (gatheredAgain.compile ⟨"/src/p.yml"⟩).1 = .ok gatheredSchema := by
  obtain ⟨-, -, ⟨read, found, lists⟩, ⟨unknown, read', name, docs⟩, condition, same, kept, -⟩ :=
    gatheringTold_facts
  have fresh : gatheredAgain.state ⟨"/src/p.yml"⟩ = .unknown := by
    rw [gatheredAgain, state_newGeneration]
  cases hk : keep gatheredSchema (gatheredAsks.saidId ⟨"/src/v/d.yml"⟩) with
  | error e v => simp [hk] at kept
  | ok done v =>
    rw [gatheredSchema, name] at hk ⊢
    exact congrArg Prod.fst (compile_gathering gatheredAsks.eq_1.symm fresh (eq_ok_of_toOption read)
      (eq_ok_of_toOption found) lists (unknown_of_match unknown) (eq_ok_of_toOption read') name
      (Option.isNone_iff_eq_none.mp docs) condition same hk)

/-- The loop has come to rest, and the output holds another name of the template than compiling it
gives: that under which the loop was told of it. -/
theorem change_reaches_output_otherSpelling :
    plainConfiguration.Watches ["src"] ⟨"/src/p.yml"⟩ ∧
    gatheringTold.bench.files.isFile ⟨"/src/p.yml"⟩ = true ∧ gatheringTold.deletions = [] ∧
    ∃ report l s, gatheringTold.tick = (.built report, l) ∧ report.isOk = true ∧ l.tick.1 = .idle ∧
      (l.bench.newGeneration.compile ⟨"/src/p.yml"⟩).1 = .ok s ∧ s.isExported = true ∧
      l.bench.files.readText ⟨"/out/p.json"⟩ ≠ .ok (l.bench.textOf s) := by
  obtain ⟨⟨drained, unchanged, queued, -, found⟩, -, -, -, -, -, -, differs⟩ := gatheringTold_facts
  have run : (gatheringTold.bench.say "watch" gatheringTold.plan.2).newGeneration.compileAll
      gatheringTold.plan.1 = ([], gathered) := by
    rw [← gathered_compileAll, gatheringBatch]
  obtain ⟨report, l, tick, ok, idle, bench⟩ :=
    WatchLoop.tick_of_run drained unchanged (by simp [queued]) run
  refine ⟨oneTemplate_watches, found, drained, report, l, gatheredSchema, tick, ok, idle, ?_,
    by rw [gatheredSchema], ?_⟩
  · rw [bench, ← gatheredAgain_compile, gatheredAgain]
  · rw [bench]
    rw [gatheredAgain] at differs
    exact fun same => differs (congrArg Except.toOption same)

end SchemaLoom
