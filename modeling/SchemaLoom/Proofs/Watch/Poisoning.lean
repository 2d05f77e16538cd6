import SchemaLoom.Proofs.Watch.Ticks
import SchemaLoom.Watch.Guard

/-!
# Poisoning

What the next batch builds is told by the history of the loop: what it took notice of and what its
ticks did. The flags and queues are a summary of that history, whatever happens to the files in
between. So after a failed batch the next one builds the whole source tree, however many ticks pass
before it, and otherwise it builds the queued changes and their importers.
-/

namespace SchemaLoom

open SchemaLoom.Path FileSystem

variable {c : Configuration} {l : WatchLoop}

/-! ## Histories -/

/-- What is done to a loop. -/
inductive Move where
  | change (path : Path)
  | removal (path : Path)
  | event (event : WatchEvent)
  | markFailed
  /-- The files become any others. -/
  | edit (files : FileSystem)
  | tick

/-- What a loop took notice of or did. -/
inductive Happening where
  | changed (template : Path)
  | removed (template : Path)
  | registryChanged
  | markedFailed
  /-- A deletion, with the importers of the template that are there. -/
  | deleted (template : Path) (importers : List Path)
  | built (report : BatchReport)
  | idle
  | busy

/-- What a loop takes notice of when it is told of a path. -/
def WatchLoop.notice (l : WatchLoop) (queued : Path → Happening) (path : Path) : List Happening :=
  match l.categorize path with
  | .template => [queued (l.bench.files.normalizePath path)]
  | .registry => [.registryChanged]
  | .unknown => []

/-- What a loop takes notice of when a path of an event is told. -/
def WatchLoop.noticePath (l : WatchLoop) (kind : EventKind) (path : Path) : List Happening :=
  if kind = .remove || !l.bench.files.pathExists path then l.notice .removed path
  else l.notice .changed path

/-- What a tick did. -/
def WatchLoop.outcome (l : WatchLoop) : Option Tick → Happening
  | none => .busy
  | some .idle => .idle
  | some (.deleted source) =>
    .deleted source ((l.bench.session.imports.affected [source]).filter l.bench.files.isFile)
  | some (.built report) => .built report

/-- A loop with all that happened to it, the latest first. -/
structure Chronicle where
  history : List Happening
  guarded : GuardedLoop

namespace Chronicle

def start (bench : Workbench) (c : Configuration) : Chronicle := ⟨[], .start bench c⟩

/-- The loop after something was done to it, and what happened. -/
def move (run : Chronicle) (m : Move) : Chronicle :=
  let l := run.guarded.loop
  let become (news : List Happening) (loop : WatchLoop) : Chronicle :=
    ⟨news.reverse ++ run.history, { run.guarded with loop }⟩
  match m with
  | .change path => become (l.notice .changed path) (l.enqueueChange path)
  | .removal path => become (l.notice .removed path) (l.enqueueRemoval path)
  | .event event => become (event.paths.flatMap (l.noticePath event.kind)) (l.intake event)
  | .markFailed => become [.markedFailed] l.markFailed
  | .edit files => become [] { l with bench := { l.bench with files } }
  | .tick => ⟨l.outcome run.guarded.tick.1 :: run.history, run.guarded.tick.2⟩

/-- The loop after a run. -/
def after (bench : Workbench) (c : Configuration) (moves : List Move) : Chronicle :=
  moves.foldl move (start bench c)

end Chronicle

/-! ## What a history tells -/

namespace Happening

def report? : Happening → Option BatchReport
  | .built report => some report
  | _ => none

/-- The templates that wait for the next batch because of it. -/
def queues : Happening → List Path
  | .changed template => [template]
  | .deleted _ importers => importers
  | _ => []

def removal? : Happening → Option Path
  | .removed template => some template
  | _ => none

def deletion? : Happening → Option Path
  | .deleted template _ => some template
  | _ => none

end Happening

namespace History

/-- What happened since the last batch, the latest first. -/
def recent (history : List Happening) : List Happening :=
  history.takeWhile fun h => h.report?.isNone

/-- The last batch failed, or the loop was marked since. -/
def Poisoned (history : List Happening) : Prop :=
  (∃ report, history.findSome? Happening.report? = some report ∧ report.isOk = false) ∨
    Happening.markedFailed ∈ recent history

/-- A change of the registry was noticed since the last batch. -/
def RegistryChanged (history : List Happening) : Prop :=
  Happening.registryChanged ∈ recent history

/-- The templates that were queued since the last batch, in order. -/
def queued (history : List Happening) : List Path :=
  (recent history).reverse.flatMap Happening.queues

/-- The deleted templates that were queued, in order. -/
def removals (history : List Happening) : List Path :=
  history.reverse.filterMap Happening.removal?

/-- The templates whose deletion was carried out, in order. -/
def deletions (history : List Happening) : List Path :=
  history.reverse.filterMap Happening.deletion?

/-- The deleted templates whose deletion is still to be carried out. -/
def pending (history : List Happening) : List Path :=
  (removals history).drop (deletions history).length

end History

/-! ## Histories grow -/

section Growth

variable {h : Happening} {history : List Happening}

theorem History.recent_cons (quiet : h.report? = none) :
    History.recent (h :: history) = h :: History.recent history := by
  unfold History.recent
  rw [List.takeWhile_cons, quiet]
  rfl

theorem History.queued_cons (quiet : h.report? = none) :
    History.queued (h :: history) = History.queued history ++ h.queues := by
  unfold History.queued
  rw [History.recent_cons quiet, List.reverse_cons, List.flatMap_append, List.flatMap_singleton]

theorem History.poisoned_cons (quiet : h.report? = none) :
    History.Poisoned (h :: history) ↔ h = .markedFailed ∨ History.Poisoned history := by
  unfold History.Poisoned
  rw [History.recent_cons quiet, List.findSome?_cons, quiet, List.mem_cons, eq_comm (a := h)]
  exact or_left_comm

theorem History.registryChanged_cons (quiet : h.report? = none) :
    History.RegistryChanged (h :: history) ↔
      h = .registryChanged ∨ History.RegistryChanged history := by
  unfold History.RegistryChanged
  rw [History.recent_cons quiet, List.mem_cons, eq_comm (a := h)]

theorem History.removals_cons :
    History.removals (h :: history) = History.removals history ++ h.removal?.toList := by
  unfold History.removals
  rw [List.reverse_cons, List.filterMap_append]
  cases hr : h.removal? <;> simp [hr]

theorem History.deletions_cons :
    History.deletions (h :: history) = History.deletions history ++ h.deletion?.toList := by
  unfold History.deletions
  rw [List.reverse_cons, List.filterMap_append]
  cases hd : h.deletion? <;> simp [hd]

end Growth

/-! ## The loop is a summary of its history -/

/-- The flags and queues tell what the history tells. -/
structure Summarizes (c : Configuration) (history : List Happening) (l : WatchLoop) : Prop where
  configured : l.configuration = c
  resting : l.rebuildsAll = false
  poisoned : l.lastFailed = true ↔ History.Poisoned history
  registry : l.registryChanged = true ↔ History.RegistryChanged history
  changes : l.changes = History.queued history
  deletions : History.removals history = History.deletions history ++ l.deletions

namespace Summarizes

variable {history : List Happening}

theorem start (bench : Workbench) : Summarizes c [] (.start bench c) where
  configured := rfl
  resting := rfl
  poisoned := by simp [WatchLoop.start, History.Poisoned, History.recent]
  registry := by simp [WatchLoop.start, History.RegistryChanged, History.recent]
  changes := rfl
  deletions := rfl

theorem withBench (s : Summarizes c history l) (bench : Workbench) :
    Summarizes c history { l with bench } :=
  ⟨s.configured, s.resting, s.poisoned, s.registry, s.changes, s.deletions⟩

/-- Something happened other than a batch. -/
theorem grow (s : Summarizes c history l) {h : Happening} {l' : WatchLoop}
    (quiet : h.report? = none) (configured : l'.configuration = l.configuration)
    (resting : l'.rebuildsAll = l.rebuildsAll)
    (poisoned : l'.lastFailed = true ↔ h = .markedFailed ∨ l.lastFailed = true)
    (registry : l'.registryChanged = true ↔ h = .registryChanged ∨ l.registryChanged = true)
    (changes : l'.changes = l.changes ++ h.queues)
    (deletions : l.deletions ++ h.removal?.toList = h.deletion?.toList ++ l'.deletions) :
    Summarizes c (h :: history) l' where
  configured := configured.trans s.configured
  resting := resting.trans s.resting
  poisoned := by rw [poisoned, s.poisoned, History.poisoned_cons quiet]
  registry := by rw [registry, s.registry, History.registryChanged_cons quiet]
  changes := by rw [changes, s.changes, History.queued_cons quiet]
  deletions := by
    rw [History.removals_cons, History.deletions_cons, s.deletions, List.append_assoc, deletions,
      List.append_assoc]

theorem markFailed (s : Summarizes c history l) :
    Summarizes c (.markedFailed :: history) l.markFailed :=
  s.grow rfl rfl rfl (by simp [WatchLoop.markFailed]) (by simp [WatchLoop.markFailed])
    (List.append_nil _).symm (List.append_nil _)

theorem enqueueChange (s : Summarizes c history l) (path : Path) :
    Summarizes c ((l.notice .changed path).reverse ++ history) (l.enqueueChange path) := by
  unfold WatchLoop.notice WatchLoop.enqueueChange
  cases l.categorize path with
  | template => exact s.grow rfl rfl rfl (by simp) (by simp) rfl (List.append_nil _)
  | registry =>
    exact s.grow rfl rfl rfl (by simp) (by simp) (List.append_nil _).symm (List.append_nil _)
  | unknown => exact s

theorem enqueueRemoval (s : Summarizes c history l) (path : Path) :
    Summarizes c ((l.notice .removed path).reverse ++ history) (l.enqueueRemoval path) := by
  unfold WatchLoop.notice WatchLoop.enqueueRemoval
  cases l.categorize path with
  | template => exact s.grow rfl rfl rfl (by simp) (by simp) (List.append_nil _).symm rfl
  | registry =>
    exact s.grow rfl rfl rfl (by simp) (by simp) (List.append_nil _).symm (List.append_nil _)
  | unknown => exact s

theorem intakePath (s : Summarizes c history l) (kind : EventKind) (path : Path) :
    Summarizes c ((l.noticePath kind path).reverse ++ history) (l.intakePath kind path) := by
  unfold WatchLoop.noticePath WatchLoop.intakePath
  split
  · exact s.enqueueRemoval path
  · exact s.enqueueChange path

end Summarizes

namespace WatchLoop

theorem intakePath_frame (l : WatchLoop) (kind : EventKind) (path : Path) :
    (intakePath kind l path).bench = l.bench ∧
      (intakePath kind l path).configuration = l.configuration := by
  unfold intakePath enqueueRemoval enqueueChange
  split <;> split <;> exact ⟨rfl, rfl⟩

theorem noticePath_congr {k : WatchLoop} (bench : k.bench = l.bench)
    (configured : k.configuration = l.configuration) : k.noticePath = l.noticePath := by
  funext kind path
  unfold noticePath notice categorize
  rw [bench, configured]

end WatchLoop

namespace Summarizes

variable {history : List Happening}

theorem intake (s : Summarizes c history l) (event : WatchEvent) :
    Summarizes c ((event.paths.flatMap (l.noticePath event.kind)).reverse ++ history)
      (l.intake event) := by
  unfold WatchLoop.intake
  generalize event.paths = paths
  -- What is noticed of the later paths does not depend on what was queued for the earlier ones.
  induction paths generalizing l history with
  | nil => exact s
  | cons path paths ih =>
    obtain ⟨bench, configured⟩ := l.intakePath_frame event.kind path
    have rest := ih (s.intakePath event.kind path)
    rw [WatchLoop.noticePath_congr bench configured] at rest
    rw [List.flatMap_cons, List.reverse_append, List.append_assoc]
    exact rest

theorem pending (s : Summarizes c history l) : History.pending history = l.deletions := by
  unfold History.pending
  rw [s.deletions, List.drop_left]

/-- After a batch the history starts anew. -/
theorem built (configured : l.configuration = c) (noticed : l.registryChanged = false)
    (drained : l.deletions = [])
    (deletions : History.removals history = History.deletions history) :
    Summarizes c (.built l.build.1 :: history) l.build.2 := by
  have recent : History.recent (.built l.build.1 :: history) = [] := rfl
  have last : (Happening.built l.build.1 :: history).findSome? Happening.report? =
      some l.build.1 := rfl
  obtain ⟨bench, -, same⟩ := l.build_cases
  refine ⟨?_, ?_, ?_, ?_, ?_, ?_⟩
  · rw [same, ← configured]
  · rw [same]
  · unfold History.Poisoned
    rw [recent, last, same, ← WatchLoop.build_report]
    simp
  · unfold History.RegistryChanged
    rw [recent, same]
    simp [noticed]
  · unfold History.queued
    rw [recent, same]
    rfl
  · rw [History.removals_cons, History.deletions_cons, deletions, same, drained]
    simp [Happening.removal?, Happening.deletion?]

/-- Every tick leaves a summary of the history with what it did. -/
theorem tick (s : Summarizes c history l) :
    Summarizes c (l.outcome (some l.tick.1) :: history) l.tick.2 := by
  rcases l.tick_cases with ⟨source, deletions, queue, same⟩ | ⟨-, -, same⟩ | ⟨drained, -, same⟩
  · rw [same]
    obtain ⟨bench, after⟩ := WatchLoop.delete_cases { l with deletions } source
    rw [after]
    exact s.grow rfl rfl rfl (by simp [WatchLoop.outcome]) (by simp [WatchLoop.outcome]) rfl
      (by simp [WatchLoop.outcome, Happening.removal?, Happening.deletion?, queue])
  · rw [same]
    exact s.grow rfl rfl rfl (by simp [WatchLoop.outcome]) (by simp [WatchLoop.outcome])
      (List.append_nil _).symm (List.append_nil _)
  · rw [same]
    obtain ⟨bench, noticed, -⟩ := l.checkRegistry_cases
    apply built
    · rw [noticed, ← s.configured]
    · rw [noticed]
    · rw [noticed]
      exact drained
    · rw [s.deletions, drained, List.append_nil]

end Summarizes

/-! ## Runs -/

namespace Chronicle

theorem move_summarizes {run : Chronicle} (resting : run.guarded.working = false)
    (s : Summarizes c run.history run.guarded.loop) (m : Move) :
    (run.move m).guarded.working = false ∧
      Summarizes c (run.move m).history (run.move m).guarded.loop := by
  cases m with
  | change path => exact ⟨resting, s.enqueueChange path⟩
  | removal path => exact ⟨resting, s.enqueueRemoval path⟩
  | event event => exact ⟨resting, s.intake event⟩
  | markFailed => exact ⟨resting, s.markFailed⟩
  | edit files => exact ⟨resting, s.withBench _⟩
  | tick =>
    unfold move
    rw [GuardedLoop.tick_of_resting resting]
    exact ⟨rfl, s.tick⟩

theorem after_summarizes (bench : Workbench) (c : Configuration) (moves : List Move) :
    (after bench c moves).guarded.working = false ∧
      Summarizes c (after bench c moves).history (after bench c moves).guarded.loop := by
  induction moves using List.reverseRecOn with
  | nil => exact ⟨rfl, .start bench⟩
  | append_singleton moves m ih =>
    unfold after at ih ⊢
    rw [List.foldl_concat]
    exact move_summarizes ih.1 ih.2 m

end Chronicle

/-- What a tick does is told by the history of the loop. -/
structure Follows (c : Configuration) (history : List Happening) (g : GuardedLoop) : Prop where
  /-- The loop is never met at work. -/
  answered : g.tick.1 ≠ none
  /-- Poisoned or not, it is idle when nothing is pending. -/
  idle : g.tick.1 = some .idle ↔ History.pending history = [] ∧ History.queued history = [] ∧
    ¬ History.RegistryChanged history
  /-- A batch builds everything after a failure. If neither that nor a change of the registry calls
  for it, it builds what was queued and the importers of that which are there. -/
  built : ∀ report, g.tick.1 = some (.built report) →
    ∃ (batch : List Path) (base after : Workbench),
      base.compileBatch batch = (report, after) ∧ Quiet after g.tick.2.loop.bench ∧
      base.files = g.loop.bench.files ∧
      (∃ registry, base.session = { g.loop.bench.session with registry }) ∧
      (¬ History.RegistryChanged history → base.session = g.loop.bench.session) ∧
      (History.Poisoned history → batch = c.sourceFiles g.loop.bench.files) ∧
      (¬ History.Poisoned history → ¬ History.RegistryChanged history →
        batch = History.queued history ++
          (g.loop.bench.session.imports.affected (History.queued history)).filter
            g.loop.bench.files.isFile)

namespace Summarizes

variable {history : List Happening}

theorem idle_iff (s : Summarizes c history l) : l.tick.1 = .idle ↔
    History.pending history = [] ∧ History.queued history = [] ∧
      ¬ History.RegistryChanged history := by
  rw [s.pending, ← s.changes, ← s.registry, Bool.not_eq_true]
  rcases l.tick_cases with ⟨source, deletions, queue, same⟩ | ⟨drained, nothing, same⟩ |
    ⟨drained, something, same⟩
  · simp [same, queue]
  · simp [same, drained, nothing]
  · rw [same]
    simp only [reduceCtorEq, false_iff]
    rintro ⟨-, changes, registry⟩
    exact something ⟨changes, s.resting, registry⟩

theorem built_batch (s : Summarizes c history l) {report : BatchReport}
    (tick : l.tick.1 = .built report) : ∃ (batch : List Path) (base after : Workbench),
      base.compileBatch batch = (report, after) ∧ Quiet after l.tick.2.bench ∧
      base.files = l.bench.files ∧
      (∃ registry, base.session = { l.bench.session with registry }) ∧
      (¬ History.RegistryChanged history → base.session = l.bench.session) ∧
      (History.Poisoned history → batch = c.sourceFiles l.bench.files) ∧
      (¬ History.Poisoned history → ¬ History.RegistryChanged history →
        batch = History.queued history ++
          (l.bench.session.imports.affected (History.queued history)).filter
            l.bench.files.isFile) := by
  rw [← s.registry, ← s.poisoned, ← s.changes]
  rcases l.tick_cases with ⟨source, deletions, queue, same⟩ | ⟨-, -, same⟩ | ⟨-, -, same⟩
  · simp [same] at tick
  · simp [same] at tick
  · rw [same] at tick ⊢
    obtain rfl := Tick.built.inj tick
    obtain ⟨told, quiet, left⟩ := l.checkRegistry.build_cases
    obtain ⟨base, noticed, files, session, kept⟩ := l.checkRegistry_cases
    have planned := l.checkRegistry.plan_of_all
    have partly := l.checkRegistry.plan_of_partly
    refine ⟨l.checkRegistry.plan.1, base.say "watch" l.checkRegistry.plan.2,
      l.checkRegistry.batch.2, ?_, ?_, files, session, ?_, ?_, ?_⟩
    · rw [WatchLoop.build_report]
      unfold WatchLoop.batch
      rw [noticed]
    · rw [left]
      exact (quiet_summarize _ _).trans quiet
    · intro unchanged
      rw [← kept (by simpa using unchanged)]
      rfl
    · intro poisoned
      rw [planned (.inr (by rw [noticed]; exact poisoned)), noticed, ← files, ← s.configured]
    · intro healthy unchanged
      rw [Bool.not_eq_true] at healthy unchanged
      rw [partly (by simp [noticed, s.resting, unchanged])
        (by rw [noticed]; exact healthy), noticed,
        kept unchanged]
      rfl

end Summarizes

theorem tick_follows_history (bench : Workbench) (c : Configuration) (moves : List Move) :
    Follows c (Chronicle.after bench c moves).history (Chronicle.after bench c moves).guarded := by
  obtain ⟨resting, s⟩ := Chronicle.after_summarizes bench c moves
  have tick := GuardedLoop.tick_of_resting resting
  refine ⟨?_, ?_, ?_⟩
  · simp [tick]
  · rw [tick, Option.some_inj]
    exact s.idle_iff
  · intro report built
    rw [tick] at built ⊢
    exact s.built_batch (Option.some_inj.mp built)

end SchemaLoom
