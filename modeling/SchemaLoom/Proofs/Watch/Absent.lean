import SchemaLoom.Proofs.FileSystem.Widening
import SchemaLoom.Proofs.Session.Internal
import SchemaLoom.Proofs.Watch.Deletion

/-!
# Templates that are gone

A batch never comes upon a template that is gone by itself: a full rebuild lists the files that
there are, and importers are queued only if they exist. But what the loop was told to rebuild is
built without another look. So a template that is gone fails in a batch exactly if its last change
was still queued, whatever was told of its removal, and the loop is poisoned by that.
-/

namespace SchemaLoom

open SchemaLoom.Path FileSystem Compile

variable {A : Path → Prop} {c : Configuration} {L : Layout} {S T place : Place}
  {fs files : FileSystem} {w v : Workbench} {l : WatchLoop} {p s : Path} {paths : List Path}

theorem FileSystem.Empties.sourceFiles (empty : files.Empties place) (source : c.source.LeadsTo S)
    (wf : WellFormed files) (leads : p.LeadsTo place) : p ∉ c.sourceFiles files := by
  intro listed
  obtain ⟨mem, -⟩ := mem_templatesBelow.mp listed
  cases found : files.find c.source with
  | error cause => simp [filesBelow, found] at mem
  | ok there =>
    obtain ⟨base, entry⟩ := there
    obtain ⟨rfl, -⟩ := find_leadsTo source found
    cases entry with
    | file contents =>
      obtain rfl : p = c.source := by simpa [filesBelow, found] using mem
      exact Bool.eq_false_iff.mp (empty.isFile leads) (isFile_iff.mpr ⟨_, _, found⟩)
    | directory =>
      rw [filesBelow_of_find found, List.mem_filterMap] at mem
      obtain ⟨⟨q, entry⟩, mem, named⟩ := mem
      cases entry with
      | directory => exact absurd named (by simp [ofFile])
      | file contents =>
        obtain ⟨names, hn, rfl⟩ := Option.map_eq_some_iff.mp named
        obtain rfl := namesBelow?_eq_some.mp hn
        have same := (leadsTo_extended source (wf.names _ mem).right).unique leads
        exact empty contents (same ▸ mem)

/-! ## Batches -/

/-- No document is stored of a template at the place. -/
structure Lacking (place : Place) (P : List Path) (w : Workbench) : Prop where
  marks : w.session.cache.Marks P
  unknown : ∀ x s, w.state x = .known s → ¬ x.LeadsTo place

theorem lacking_newGeneration (w : Workbench) : Lacking place [] w.newGeneration :=
  ⟨⟨Cache.distinct_empty, by simp, .nil⟩, fun x s known => by
    simp [Workbench.state, Workbench.newGeneration, Workbench.modifySession] at known⟩

section

variable (roots : L.Roots S T) (scope : Scope A S)
include roots scope

/-- As long as only outputs are written, a template that is gone is never stored. -/
theorem lacking_steady (root : ∀ contents, fs.entry? S ≠ some (.file contents))
    (apart : ¬ OutputPlace T place) (empty : fs.Empties place) :
    Steady A (fun _ => False) fun P w =>
      (w.Orderly A L ∧ OutputsOnly T fs w.files) ∧ Lacking place P w := by
  have orderly := orderly_steady roots scope root
  refine { finds := ?finds, quiet := ?quiet, marked := ?marked, forgotten := ?forgotten,
           linked := ?linked, unmarked := ?unmarked, keep := ?keep }
  case finds =>
    intro P w h
    exact orderly.finds (P := P) h.1
  case quiet =>
    intro P w v h hq
    refine ⟨orderly.quiet (P := P) h.1 hq, ?_, fun x s => ?_⟩
    · obtain ⟨-, diagnostics, session⟩ := hq
      rw [session]
      exact h.2.marks
    · rw [state_quiet hq]
      exact h.2.unknown x s
  case marked =>
    intro P w p hp h unknown
    exact ⟨orderly.marked (P := P) hp h.1 unknown, h.2.marks.begin_ unknown, fun x s known =>
      h.2.unknown x s ((Cache.known_begin unknown).mp known)⟩
  case forgotten =>
    intro P w p hp h
    exact ⟨orderly.forgotten (P := P) hp h.1, h.2.marks, h.2.unknown⟩
  case linked =>
    intro P w p d hp hd h
    exact ⟨orderly.linked (P := P) hp hd h.1, h.2.marks, h.2.unknown⟩
  case unmarked =>
    intro P w p e hp h
    have busy : w.session.cache.state p = .cycle := h.2.marks.busy p List.mem_cons_self
    exact .inr ⟨(orderly.unmarked (P := P) e hp h.1).resolve_left id, h.2.marks.abandon,
      fun x s known =>
        h.2.unknown x s ((Cache.known_abandon h.2.marks.distinct (by simp [busy])).mp known)⟩
  case keep =>
    rintro P w v p schema document hp hw read hv rfl run
    -- A template that was read is none that is gone.
    have there : ¬ schema.source.LeadsTo place := by
      intro leads
      obtain ⟨text, text_read, -⟩ := readTemplate_eq_ok read
      obtain ⟨q, found⟩ := readText_eq_ok.mp text_read
      have file := (find_leadsTo leads found).2
      exact empty.entry? _ ((hw.1.2 place apart _).mp file)
    have unknown : ∀ x s, (v.finished schema).state x = .known s → ¬ x.LeadsTo place := by
      intro x s known leads
      rcases Cache.known_finish.mp known with ⟨same, -⟩ | ⟨-, known⟩
      · exact there ((LeadsTo.same_iff_leadsTo leads).mp same)
      · exact hv.2.unknown x s known leads
    obtain ⟨good, bad⟩ := orderly.keep (P := P) hp hw.1 read hv.1 rfl run
    constructor
    · intro u hu
      obtain ⟨marks, known⟩ := keep_ok_known hv.2.marks hu
      exact ⟨good u hu, marks, fun x s hs => unknown x s ((known x s).mp hs)⟩
    · intro e u hu
      obtain ⟨marks, known⟩ := keep_error_known hv.2.marks hu
      exact .inr ⟨(bad e u hu).resolve_left id, marks, fun x s hs =>
        unknown x s ((known x s).mp hs)⟩

/-- In a batch a template that is gone fails. -/
theorem compileBatch_gone (h : w.Orderly A L)
    (root : ∀ contents, w.files.entry? S ≠ some (.file contents))
    (apart : ¬ OutputPlace T place) (empty : w.files.Empties place) (admitted : ∀ q ∈ paths, A q)
    (leads : p.LeadsTo place) : p ∈ (w.compileBatch paths).1.failing ↔ p ∈ paths := by
  constructor
  · intro listed
    obtain ⟨e, listed⟩ := BatchReport.mem_failing.mp listed
    have failed : (p, e) ∈ (w.newGeneration.compileAll paths).1 := listed
    rw [compileAll_failures] at failed
    obtain ⟨turn, mem, failure⟩ := List.mem_filterMap.mp failed
    exact (failure?_eq_some.mp failure).1 ▸ mem_of_turn mem
  · intro mem
    by_contra unlisted
    have absent : ∀ e, (p, e) ∉ (w.newGeneration.compileAll paths).1 := fun e listed =>
      unlisted (BatchReport.mem_failing.mpr ⟨e, listed⟩)
    obtain ⟨s, known⟩ := knows_of_not_listed mem absent
    have start : (w.newGeneration.Orderly A L ∧ OutputsOnly T w.files w.newGeneration.files) ∧
        Lacking place [] w.newGeneration :=
      ⟨⟨h.congr rfl rfl rfl, .refl w.files⟩, lacking_newGeneration w⟩
    have kept := (lacking_steady roots scope root apart empty).compileAll start admitted
      fun _ _ _ => id
    exact kept.2.unknown p s known leads

end

/-! ## What the next batch comprises -/

namespace Summarizes

variable {history : List Happening}

theorem plan_of_full (summary : Summarizes c history l)
    (full : History.Poisoned history ∨ History.RegistryChanged history) :
    l.checkRegistry.plan.1 = c.sourceFiles l.bench.files := by
  obtain ⟨bench, checked, files, -⟩ := l.checkRegistry_cases
  have all : l.checkRegistry.rebuildsAll = true ∨ l.checkRegistry.lastFailed = true := by
    rw [checked]
    rcases full with poisoned | changed
    · exact .inr (summary.poisoned.mpr poisoned)
    · exact .inl (by simp [summary.registry.mpr changed])
  rw [WatchLoop.plan_of_all all, checked, ← files, ← summary.configured]

theorem plan_of_queued (summary : Summarizes c history l) (healthy : ¬ History.Poisoned history)
    (unchanged : ¬ History.RegistryChanged history) : l.checkRegistry.plan.1 =
      History.queued history ++ (l.bench.session.imports.affected (History.queued history)).filter
        l.bench.files.isFile := by
  rw [← summary.poisoned, Bool.not_eq_true] at healthy
  rw [← summary.registry, Bool.not_eq_true] at unchanged
  rw [WatchLoop.checkRegistry_of_unchanged unchanged,
    WatchLoop.plan_of_partly summary.resting healthy, ← summary.changes]
  rfl

/-- A template that is gone is in the next batch only if it was queued itself. -/
theorem mem_plan (summary : Summarizes c history l) (source : c.source.LeadsTo S)
    (wf : WellFormed l.bench.files) (empty : l.bench.files.Empties place)
    (leads : p.LeadsTo place) : p ∈ l.checkRegistry.plan.1 ↔
      ¬ History.Poisoned history ∧ ¬ History.RegistryChanged history ∧
        p ∈ History.queued history := by
  by_cases full : History.Poisoned history ∨ History.RegistryChanged history
  · rw [summary.plan_of_full full]
    refine iff_of_false (empty.sourceFiles source wf leads) ?_
    rintro ⟨healthy, unchanged, -⟩
    exact full.elim healthy unchanged
  · rw [not_or] at full
    rw [summary.plan_of_queued full.1 full.2, List.mem_append]
    refine ⟨fun mem => ⟨full.1, full.2, mem.resolve_right fun importer => ?_⟩,
      fun queued => .inl queued.2.2⟩
    have file := (List.mem_filter.mp importer).2
    rw [empty.isFile leads] at file
    cases file

end Summarizes

theorem WatchLoop.report_of_built {report : BatchReport} (built : l.tick.1 = .built report) :
    report = ((l.checkRegistry.bench.say "watch" l.checkRegistry.plan.2).compileBatch
      l.checkRegistry.plan.1).1 := by
  rcases l.tick_cases with ⟨source, rest, -, same⟩ | ⟨-, -, same⟩ | ⟨-, -, same⟩
  · simp [same] at built
  · simp [same] at built
  · rw [same] at built
    exact (Tick.built.inj built).symm

theorem scope_of_places (S : Place) : Scope (fun p => ∃ place, p.LeadsTo place) S :=
  ⟨id, fun below => below.2.imp fun _ => And.left, fun ⟨_, _, _, _, _, beside⟩ => ⟨_, beside⟩⟩

/-- A template that is gone fails in a batch exactly if the batch is no full rebuild and the
template is still queued. -/
theorem Summarizes.gone_fails {history : List Happening} {report : BatchReport}
    (summary : Summarizes c history l) (bounded : l.Bounded (fun p => ∃ place, p.LeadsTo place) c S)
    (roots : c.layout.Roots S T) (apart : ¬ OutputPlace T place)
    (empty : l.bench.files.Empties place) (leads : s.LeadsTo place)
    (built : l.tick.1 = .built report) :
    (∃ q ∈ report.failing, q.same s = true) ↔
      ¬ History.Poisoned history ∧ ¬ History.RegistryChanged history ∧
        Dependencies.hasPath (History.queued history) s = true := by
  have scope := scope_of_places S
  obtain ⟨checked, files⟩ := bounded.checkRegistry
  have planned : ∀ q, q.LeadsTo place → (q ∈ report.failing ↔
      ¬ History.Poisoned history ∧ ¬ History.RegistryChanged history ∧
        q ∈ History.queued history) := by
    intro q here
    rw [WatchLoop.report_of_built built]
    have said : (l.checkRegistry.bench.say "watch" l.checkRegistry.plan.2).Orderly _ c.layout :=
      checked.bench.congr rfl rfl rfl
    rw [compileBatch_gone roots scope said checked.root apart (files ▸ empty)
      (checked.plan_admitted roots scope) here]
    exact summary.mem_plan roots.source bounded.bench.files empty here
  rw [Dependencies.hasPath_iff]
  constructor
  · rintro ⟨q, listed, same⟩
    obtain ⟨healthy, unchanged, queued⟩ :=
      (planned q ((LeadsTo.same_iff_leadsTo leads).mp same)).mp listed
    exact ⟨healthy, unchanged, q, queued, same_comm.trans same⟩
  · rintro ⟨healthy, unchanged, q, queued, same⟩
    have back : q.same s = true := same_comm.trans same
    exact ⟨q, (planned q ((LeadsTo.same_iff_leadsTo leads).mp back)).mpr
      ⟨healthy, unchanged, queued⟩, back⟩

/-! ## Runs -/

theorem Chronicle.after_loop (bench : Workbench) (c : Configuration) (moves : List Move) :
    (after bench c moves).guarded.loop = (WatchLoop.start bench c).after (moves.map .move) := by
  induction moves using List.reverseRecOn with
  | nil => rfl
  | append_singleton moves m ih =>
    have step : (WatchLoop.start bench c).after ((moves ++ [m]).map .move) =
        ((WatchLoop.start bench c).after (moves.map .move)).move m := by
      rw [List.map_append]
      exact List.foldl_concat _ _ _ _
    rw [step, ← ih]
    cases m with
    | tick => exact after_tick bench c moves
    | _ =>
      rw [after_concat]
      rfl

/-- Since a run the template was never there, and the loop was told of no change of it. -/
def StaysAway (bench : Workbench) (c : Configuration) (s : Path) (place : Place)
    (moves later : List Move) : Prop :=
  ∀ before m since, later = before ++ m :: since →
    (Chronicle.after bench c (moves ++ before)).guarded.loop.bench.files.Empties place ∧
    ∀ q, .changed q ∈ (Chronicle.after bench c (moves ++ before)).guarded.loop.news m →
      q.same s = false

/-- What a loop is told of queues changed templates only. -/
theorem WatchLoop.eq_changed_of_news {m : Move} {h : Happening} {q : Path} (mem : h ∈ l.news m)
    (queued : q ∈ h.queues) : h = .changed q := by
  have changed : ∀ {path}, h ∈ l.notice .changed path → h = .changed q := by
    intro path mem
    unfold notice at mem
    split at mem
    · obtain rfl := List.mem_singleton.mp mem
      exact congrArg Happening.changed (List.mem_singleton.mp queued).symm
    · obtain rfl := List.mem_singleton.mp mem
      exact absurd queued List.not_mem_nil
    · exact absurd mem List.not_mem_nil
  have removed : ∀ {path}, h ∉ l.notice .removed path := by
    intro path mem
    unfold notice at mem
    split at mem
    · obtain rfl := List.mem_singleton.mp mem
      exact absurd queued List.not_mem_nil
    · obtain rfl := List.mem_singleton.mp mem
      exact absurd queued List.not_mem_nil
    · exact absurd mem List.not_mem_nil
  cases m with
  | change path => exact changed mem
  | removal path => exact absurd mem removed
  | event event =>
    obtain ⟨path, -, mem⟩ := List.mem_flatMap.mp mem
    unfold noticePath at mem
    split at mem
    · exact absurd mem removed
    · exact changed mem
  | markFailed | edit | tick => exact absurd mem List.not_mem_nil

section Runs

variable {bench : Workbench} {moves later : List Move} {m : Move}

theorem hasPath_eq_false_iff : Dependencies.hasPath paths s = false ↔
    ∀ q ∈ paths, q.same s = false := by
  unfold Dependencies.hasPath
  rw [List.any_eq_false]
  exact forall₂_congr fun q _ => by rw [same_comm, Bool.not_eq_true]

/-- A deletion queues existing templates only. -/
theorem WatchLoop.tick_untouched (leads : s.LeadsTo place) (empty : l.bench.files.Empties place)
    (h : Dependencies.hasPath l.changes s = false) :
    Dependencies.hasPath l.tick.2.changes s = false := by
  rcases l.tick_cases with ⟨source, rest, queue, -⟩ | ⟨-, -, same⟩ | ⟨-, -, same⟩
  · rw [tick_changes queue, Dependencies.hasPath_append_eq_false, and_iff_right h]
    refine hasPath_eq_false_iff.mpr fun q mem => ?_
    rw [Bool.eq_false_iff]
    intro same
    have file := (List.mem_filter.mp mem).2
    rw [empty.isFile ((LeadsTo.same_iff_leadsTo leads).mp same)] at file
    cases file
  · rw [same]
    exact h
  · obtain ⟨bench, -, built⟩ := l.checkRegistry.build_cases
    rw [same, built]
    rfl

theorem hasPath_changes_concat (leads : s.LeadsTo place)
    (empty : (Chronicle.after bench c moves).guarded.loop.bench.files.Empties place)
    (untold : ∀ q, .changed q ∈ (Chronicle.after bench c moves).guarded.loop.news m →
      q.same s = false)
    (h : Dependencies.hasPath (Chronicle.after bench c moves).guarded.loop.changes s = false) :
    Dependencies.hasPath
      (Chronicle.after bench c (moves ++ [m])).guarded.loop.changes s = false := by
  rcases Chronicle.learns bench c moves m with ⟨files, -, same⟩ | ⟨-, same⟩ | learns
  · rw [same]
    exact h
  · rw [same]
    exact WatchLoop.tick_untouched leads empty h
  · rw [learns.changes, Dependencies.hasPath_append_eq_false, and_iff_right h]
    refine hasPath_eq_false_iff.mpr fun q mem => ?_
    obtain ⟨news, told, queued⟩ := List.mem_flatMap.mp mem
    exact untold q (WatchLoop.eq_changed_of_news told queued ▸ told)

theorem hasPath_changes_later (leads : s.LeadsTo place)
    (away : StaysAway bench c s place moves later)
    (h : Dependencies.hasPath (Chronicle.after bench c moves).guarded.loop.changes s = false) :
    Dependencies.hasPath
      (Chronicle.after bench c (moves ++ later)).guarded.loop.changes s = false := by
  induction later using List.reverseRecOn with
  | nil => rwa [List.append_nil]
  | append_singleton later m ih =>
    have earlier : StaysAway bench c s place moves later := fun before n since split =>
      away before n (since ++ [m]) (by rw [split]; simp)
    obtain ⟨empty, untold⟩ := away later m [] rfl
    rw [← List.append_assoc]
    exact hasPath_changes_concat leads empty untold (ih earlier)

/-- In every run a template that is gone fails in a batch exactly if the batch is no full rebuild
and the template was queued since the last batch, be it before its removal was queued. This poisons
the loop. As long as the template stays away and the loop is told of no change of it, no later batch
has it. -/
theorem gone_template_fails (roots : c.layout.Roots S T) (hosts : files.Hosts S)
    (started : c.startSession files = .ok bench)
    (allowed : ∀ m ∈ moves, (Operation.move m).Allowed S) (leads : s.LeadsTo place)
    (apart : ¬ OutputPlace T place)
    (empty : (Chronicle.after bench c moves).guarded.loop.bench.files.Empties place)
    {report : BatchReport}
    (built : (Chronicle.after bench c moves).guarded.tick.1 = some (.built report)) :
    ((∃ q ∈ report.failing, q.same s = true) ↔
      ¬ History.Poisoned (Chronicle.after bench c moves).history ∧
      ¬ History.RegistryChanged (Chronicle.after bench c moves).history ∧
      Dependencies.hasPath (History.queued (Chronicle.after bench c moves).history) s = true) ∧
    ((∃ q ∈ report.failing, q.same s = true) →
      History.Poisoned (Chronicle.after bench c (moves ++ [.tick])).history) ∧
    ∀ later, StaysAway bench c s place (moves ++ [.tick]) later →
      Dependencies.hasPath
        (History.queued (Chronicle.after bench c (moves ++ [.tick] ++ later)).history) s =
          false := by
  obtain ⟨-, summary⟩ := Chronicle.after_summarizes bench c moves
  have bounded : (Chronicle.after bench c moves).guarded.loop.Bounded
      (fun p => ∃ place, p.LeadsTo place) c S := by
    rw [Chronicle.after_loop]
    refine (Configuration.start_bounded hosts started).after roots (scope_of_places S) ?_ ?_
    · simpa using allowed
    · simp [Operation.compiles]
  have tick := built
  rw [Chronicle.tick_fst, Option.some_inj] at tick
  have history : (Chronicle.after bench c (moves ++ [.tick])).history =
      .built report :: (Chronicle.after bench c moves).history := by
    rw [Chronicle.after_concat]
    show WatchLoop.outcome _ (Chronicle.after bench c moves).guarded.tick.1 :: _ = _
    rw [built]
    rfl
  refine ⟨summary.gone_fails bounded roots apart empty leads tick, ?_, fun later away => ?_⟩
  · rintro ⟨q, listed, -⟩
    rw [history]
    refine .inl ⟨report, rfl, ?_⟩
    obtain ⟨e, failed⟩ := BatchReport.mem_failing.mp listed
    exact List.isEmpty_eq_false_iff.mpr (List.ne_nil_of_mem failed)
  · rw [← (Chronicle.after_summarizes bench c _).2.changes]
    apply hasPath_changes_later leads away
    rw [(Chronicle.after_summarizes bench c _).2.changes, history]
    rfl

end Runs

/-! ## A change before the removal -/

def twoTemplates : List (Place × Entry) :=
  [(["src"], .directory), (["src", "b.yml"], .file (.text "type: string")),
    (["src", "a.yml"], .file (.text "type: string"))]

/-- Both templates change, then the first one is removed, and its deletion is carried out. -/
def changedAndRemoved : List Move :=
  [.change ⟨"/src/a.yml"⟩, .change ⟨"/src/b.yml"⟩, .edit ⟨[], twoTemplates.take 2⟩,
    .removal ⟨"/src/a.yml"⟩, .tick]

def changedAndRemovedLoop : WatchLoop :=
  (Chronicle.after (plainSession twoTemplates) plainConfiguration changedAndRemoved).guarded.loop

theorem changedAndRemovedLoop_facts :
    changedAndRemovedLoop.deletions = [] ∧ changedAndRemovedLoop.lastFailed = false ∧
    changedAndRemovedLoop.registryChanged = false ∧
    changedAndRemovedLoop.changes = [⟨"/src/a.yml"⟩, ⟨"/src/b.yml"⟩] ∧
    changedAndRemovedLoop.bench.files.entries = twoTemplates.take 2 := by
  decide +kernel

theorem changedAndRemoved_allowed :
    ∀ m ∈ changedAndRemoved, (Operation.move m).Allowed ["src"] := by
  have plain : ∀ m ∈ changedAndRemoved, ∀ p ∈ m.paths,
      p.isAbsolute = true ∧ Component.up ∉ p.components := by decide
  have hosts : (⟨[], twoTemplates.take 2⟩ : FileSystem).Hosts ["src"] :=
    .of_directory (.ofEntries (by decide) (by decide)) (by decide)
  intro m mem
  refine ⟨plain m mem, ?_⟩
  intro files edited
  obtain rfl := Operation.move.inj edited
  simp only [changedAndRemoved, List.mem_cons, List.not_mem_nil, or_false] at mem
  obtain rfl : files = ⟨[], twoTemplates.take 2⟩ := by simpa using mem
  exact hosts

/-- The batch fails on the template whose removal the loop was told of, and was told of last. -/
theorem gone_template_fails_changedAndRemoved : ∃ report,
    (Chronicle.after (plainSession twoTemplates) plainConfiguration
      changedAndRemoved).guarded.tick.1 =
      some (.built report) ∧
    (∃ q ∈ report.failing, q.same ⟨"/src/a.yml"⟩ = true) ∧
    History.Poisoned (Chronicle.after (plainSession twoTemplates) plainConfiguration
      (changedAndRemoved ++ [.tick])).history := by
  obtain ⟨drained, healthy, unchanged, queued, files⟩ := changedAndRemovedLoop_facts
  have summary := (Chronicle.after_summarizes (plainSession twoTemplates) plainConfiguration
    changedAndRemoved).2
  have built : changedAndRemovedLoop.tick =
      (.built changedAndRemovedLoop.checkRegistry.build.1,
        changedAndRemovedLoop.checkRegistry.build.2) := by
    rcases changedAndRemovedLoop.tick_cases with ⟨_, _, queue, -⟩ | ⟨-, nothing, -⟩ | ⟨-, -, same⟩
    · simp [drained] at queue
    · simp [queued] at nothing
    · exact same
  have tick := Chronicle.tick_fst (plainSession twoTemplates) plainConfiguration changedAndRemoved
  rw [show (Chronicle.after (plainSession twoTemplates) plainConfiguration
    changedAndRemoved).guarded.loop = changedAndRemovedLoop from rfl, built] at tick
  have roots : plainConfiguration.layout.Roots ["src"] ["out"] :=
    ⟨by decide, by decide, by decide, by decide⟩
  have hosts : (plainSession twoTemplates).files.Hosts ["src"] :=
    .of_directory (.ofEntries (by decide) (by decide)) (by decide)
  have empty : changedAndRemovedLoop.bench.files.Empties ["src", "a.yml"] := by
    unfold FileSystem.Empties
    rw [files]
    simp [twoTemplates]
  have started : plainConfiguration.startSession (plainSession twoTemplates).files =
      .ok (plainSession twoTemplates) := rfl
  obtain ⟨fails, poisons, -⟩ := gone_template_fails (s := ⟨"/src/a.yml"⟩) roots hosts started
    changedAndRemoved_allowed (by decide) (by decide) empty tick
  have failing := fails.mpr ⟨fun poisoned => ?_, fun changed => ?_, ?_⟩
  · exact ⟨_, tick, failing, poisons failing⟩
  · rw [← summary.poisoned] at poisoned
    exact absurd (healthy.symm.trans poisoned) (by decide)
  · rw [← summary.registry] at changed
    exact absurd (unchanged.symm.trans changed) (by decide)
  · rw [← summary.changes]
    show Dependencies.hasPath changedAndRemovedLoop.changes _ = true
    rw [queued]
    decide

end SchemaLoom
