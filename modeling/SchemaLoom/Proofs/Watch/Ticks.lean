import SchemaLoom.Proofs.Session.Compiles
import SchemaLoom.Watch.Loop

/-!
# Ticks

A tick takes one deletion, or it is idle, or it builds one batch. Telling the diagnostics of a batch
changes neither the files nor what the session knows.
-/

namespace SchemaLoom

variable {l : WatchLoop} {w : Workbench}

/-! ## Reports -/

theorem quiet_summarize (w : Workbench) (r : BatchReport) : Quiet w (w.summarize r) := by
  have told : Quiet w w.reportDiagnostics := ⟨rfl, _, rfl⟩
  unfold Workbench.summarize
  simp only
  apply Quiet.trans _ (Compile.quiet_say _ _ _)
  split
  · exact told
  · exact told.trans (Compile.quiet_say _ _ _)

namespace WatchLoop

/-- The next batch. -/
def batch (l : WatchLoop) : BatchReport × Workbench :=
  (l.bench.say "watch" l.plan.2).compileBatch l.plan.1

/-- The workbench behind the next batch, when its diagnostics were told. -/
def reported (l : WatchLoop) : Workbench := l.batch.2.summarize l.batch.1

theorem build_report (l : WatchLoop) : l.build.1 = l.batch.1 := rfl

theorem build_eq (l : WatchLoop) : l.build.2 = noteFailure { l with
    bench := l.reported
    changes := []
    lastFailed := false
    rebuildsAll := false } l.batch.1 := rfl

theorem build_of_isOk (ok : l.batch.1.isOk = true) : l.build.2 = { l with
    bench := l.reported
    changes := []
    lastFailed := false
    rebuildsAll := false } := by
  rw [build_eq]
  exact if_pos ok

theorem build_of_failed (failed : l.batch.1.isOk = false) : ∃ bench, Quiet l.reported bench ∧
    l.build.2 = { l with bench, changes := [], lastFailed := true, rebuildsAll := false } := by
  rw [build_eq]
  unfold noteFailure
  rw [failed]
  exact ⟨_, Compile.quiet_say _ _ _, rfl⟩

theorem build_cases (l : WatchLoop) : ∃ bench, Quiet l.reported bench ∧ l.build.2 = { l with
    bench
    changes := []
    lastFailed := !l.batch.1.isOk
    rebuildsAll := false } := by
  cases ok : l.batch.1.isOk with
  | true => exact ⟨_, .refl _, build_of_isOk ok⟩
  | false => exact build_of_failed ok

theorem plan_of_all (h : l.rebuildsAll = true ∨ l.lastFailed = true) :
    l.plan.1 = l.configuration.sourceFiles l.bench.files := by
  unfold plan
  split
  · rfl
  · rename_i partly
    rw [if_pos (h.resolve_left partly)]

theorem plan_of_partly (partly : l.rebuildsAll = false) (healthy : l.lastFailed = false) :
    l.plan.1 = l.bench.withDependents l.changes := by
  unfold plan
  rw [partly, healthy]
  simp only [Bool.false_eq_true, if_false]
  split <;> rfl

theorem checkRegistry_of_unchanged (h : l.registryChanged = false) : l.checkRegistry = l := by
  unfold checkRegistry
  rw [h]
  rfl

/-- Noticing a changed registry replaces the registry of the session at most. -/
theorem checkRegistry_cases (l : WatchLoop) : ∃ bench,
    l.checkRegistry = { l with
      registryChanged := false
      rebuildsAll := l.rebuildsAll || l.registryChanged
      bench } ∧
    bench.files = l.bench.files ∧
    (∃ registry, bench.session = { l.bench.session with registry }) ∧
    (l.registryChanged = false → bench = l.bench) := by
  cases changed : l.registryChanged with
  | false =>
    refine ⟨l.bench, ?_, rfl, ⟨_, rfl⟩, fun _ => rfl⟩
    rw [checkRegistry_of_unchanged changed, Bool.or_false, ← changed]
  | true =>
    unfold checkRegistry reloadRegistry
    rw [changed, Bool.or_true]
    simp only [if_true]
    split
    · rename_i registry log loaded
      exact ⟨_, rfl, rfl, ⟨registry, rfl⟩, by simp⟩
    · exact ⟨_, rfl, rfl, ⟨_, rfl⟩, by simp⟩

theorem delete_cases (l : WatchLoop) (source : Path) : ∃ bench, l.delete source = { l with
    changes := l.changes ++
      (l.bench.session.imports.affected [source]).filter l.bench.files.isFile
    bench } := by
  unfold delete removeOutput
  simp only
  split
  · exact ⟨_, rfl⟩
  · exact ⟨_, rfl⟩
  · exact ⟨_, rfl⟩

theorem tick_eq (h : l.deletions = []) : l.tick =
    if l.checkRegistry.changes.isEmpty && !l.checkRegistry.rebuildsAll then (.idle, l.checkRegistry)
    else (.built l.checkRegistry.build.1, l.checkRegistry.build.2) := by
  unfold tick
  rw [h]

/-- All that a tick can do. -/
theorem tick_cases (l : WatchLoop) :
    (∃ source deletions, l.deletions = source :: deletions ∧
      l.tick = (.deleted source, { l with deletions }.delete source)) ∨
    (l.deletions = [] ∧ (l.changes = [] ∧ l.rebuildsAll = false ∧ l.registryChanged = false) ∧
      l.tick = (.idle, l)) ∨
    (l.deletions = [] ∧ ¬ (l.changes = [] ∧ l.rebuildsAll = false ∧ l.registryChanged = false) ∧
      l.tick = (.built l.checkRegistry.build.1, l.checkRegistry.build.2)) := by
  cases queue : l.deletions with
  | cons source deletions =>
    refine .inl ⟨source, deletions, rfl, ?_⟩
    unfold tick
    rw [queue]
  | nil =>
    refine .inr ?_
    rw [tick_eq queue]
    obtain ⟨bench, same, -⟩ := l.checkRegistry_cases
    have nothing : (l.checkRegistry.changes.isEmpty && !l.checkRegistry.rebuildsAll) = true ↔
        l.changes = [] ∧ l.rebuildsAll = false ∧ l.registryChanged = false := by
      rw [same]
      simp
    by_cases h : l.changes = [] ∧ l.rebuildsAll = false ∧ l.registryChanged = false
    · rw [if_pos (nothing.mpr h), checkRegistry_of_unchanged h.2.2]
      exact .inl ⟨rfl, h, rfl⟩
    · rw [if_neg fun empty => h (nothing.mp empty)]
      exact .inr ⟨rfl, h, rfl⟩

end WatchLoop

end SchemaLoom
