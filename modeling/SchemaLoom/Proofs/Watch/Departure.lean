import SchemaLoom.Proofs.Watch.Deletion
import SchemaLoom.Proofs.Watch.Membership

/-!
# Templates that are deleted

Deletions are drained before the next batch: each removes an output, takes the template out of
the graph of imports and queues the importers that are left. The invariant of the drain is that
nothing but outputs of deleted templates is removed, and that only importers of deleted templates
are queued. Behind it, a template that imports none of them is rendered as it was, if its references
read as they did; the graph does not tell which templates refer to one that is gone.
-/

namespace SchemaLoom

open SchemaLoom.Path FileSystem Compile Relation

variable {S T d : Place} {gone rest : List Place} {start : Workbench} {s : Watching}
  {c : Configuration} {l k m : WatchLoop} {q : Path} {contents : Contents}

namespace Departure

/-- The bench of the loop, without the templates that are gone. -/
def bench (s : Watching) (gone : List Place) : Workbench :=
  { s.loop.bench with files := s.loop.bench.files.without gone.contains }

/-- The loop to which the deletions were passed. -/
def passed (s : Watching) (gone : List Place) : WatchLoop :=
  { s.loop with
    bench := bench s gone
    deletions := gone.map pathOf }

/-- A template that is left imports, at some remove, one that is gone. -/
def Orphan (c : Configuration) (start : Workbench) (s : Watching) (gone : List Place)
    (y : Path) : Prop :=
  c.Compilable start y ∧ (bench s gone).files.isFile y = true ∧
    ∃ d ∈ gone, s.loop.bench.Depends y (pathOf d)

end Departure

open Departure in
/-- Where nothing was left to do templates were deleted. -/
structure Departure (c : Configuration) (S T : Place) (start : Workbench) (s : Watching)
    (gone : List Place) : Prop extends AtRest c S T start s where
  files : ∀ d ∈ gone, ∃ contents, s.loop.bench.files.entry? d = some (.file contents)
  sources : ∀ d ∈ gone, pathOf d ∈ c.sourceFiles s.loop.bench.files
  fixed : start.Fixed c (bench s gone).files
  template : ∀ d ∈ gone, c.categorize (bench s gone).files (pathOf d) = .template

namespace Departure

variable (h : Departure c S T start s gone)
include h

/-! ## The project that is left -/

theorem place (hd : d ∈ gone) : ValidPlace d ∧ S <+: d := by
  obtain ⟨contents, file⟩ := h.files d hd
  have valid := h.toAtRest.setting.sound.files.valid file
  obtain ⟨⟨names, old, same, entry⟩, -⟩ :=
    h.toAtRest.mem_sourceFiles.mp (h.sources d hd)
  obtain rfl := pathOf_inj valid (h.toAtRest.setting.sound.files.names _ entry) same
  exact ⟨valid, List.prefix_append S names⟩

theorem removed : ∀ q, gone.contains q = true →
    ∃ contents, s.loop.bench.files.entry? q = some (.file contents) :=
  fun q mem => h.files q (List.contains_iff_mem.mp mem)

theorem wellFormed : WellFormed (bench s gone).files :=
  h.toAtRest.setting.sound.files.without_files h.removed

theorem widened : Widened (· ∈ gone) (bench s gone) s.loop.bench := by
  have widens := widens_without h.removed
  simp only [List.contains_iff_mem] at widens
  exact ⟨rfl, widens, h.toAtRest.setting.sound.files⟩

theorem directories : SameDirectories (bench s gone) s.loop.bench := by
  intro q directory
  show FileSystem.entry? (s.loop.bench.files.without gone.contains) q = some .directory
  rw [entry?_without_of_kept]
  · exact directory
  · rw [Bool.eq_false_iff]
    intro mem
    obtain ⟨contents, file⟩ := h.removed q mem
    simp [directory] at file

theorem setting : Setting (c.Compilable start) S T (bench s gone) := by
  have before := h.toAtRest.setting
  have sound : (bench s gone).Sound S T :=
    ⟨⟨before.sound.trees, h.wellFormed, h.directories S before.sound.root⟩, before.sound.docs⟩
  refine ⟨sound, before.admits, ?_⟩
  apply (h.widened.finds h.project.source (h.project.find_akin h.akin)
    sound.toRooted fun q mem => (h.place mem).2).mono
  exact fun x => (h.project.compilable_akin h.akin).mp

theorem absent (hd : d ∈ gone) : (bench s gone).files.isFile (pathOf d) = false :=
  (h.widened.files.absent d hd).isFile (leadsTo_pathOf (h.place hd).1)

theorem isFile_akin {w : Workbench} (akin : Akin T (bench s gone) w)
    (hq : c.Compilable start q) : w.files.isFile q = (bench s gone).files.isFile q := by
  obtain ⟨place, valid, rfl, outside⟩ := h.setting.admits q hq
  exact akin.similar.isFile h.wellFormed akin.files (leadsTo_pathOf valid) outside

theorem find : (bench s gone).files.find (pathOf S) = .ok (S, .directory) :=
  find_transfer h.wellFormed (leadsTo_pathOf h.project.sound.trees.valid)
    (h.project.find_akin h.akin) h.setting.sound.root id

theorem mem_sourceFiles (mem : q ∈ c.sourceFiles (bench s gone).files) :
    q ∈ c.sourceFiles s.loop.bench.files ∧ (bench s gone).files.isFile q = true := by
  obtain ⟨⟨names, contents, rfl, entry⟩, template⟩ :=
    (c.mem_sourceFiles h.project.source h.wellFormed h.find).mp mem
  obtain ⟨old, kept⟩ := List.mem_filter.mp entry
  have there := h.toAtRest.mem_sourceFiles.mpr
    ⟨⟨names, contents, rfl, old⟩, template⟩
  refine ⟨there, ?_⟩
  rw [← (h.current there _ .refl).good.isFile]
  refine (h.widened.files.isFile h.wellFormed h.toAtRest.setting.sound.files
    (leadsTo_pathOf (h.wellFormed.names _ entry)) fun mem => ?_).symm
  simp [mem] at kept

/-- What is left is a project, too. -/
theorem project_again : ∃ again, Project c S T again ∧ again.files = (bench s gone).files ∧
    Akin T again (bench s gone) := by
  obtain ⟨registry, log, loaded, begun⟩ :=
    Configuration.startSession_eq_ok.mp h.project.started
  obtain ⟨again, started, files⟩ : ∃ again, c.startSession again.files = .ok again ∧
      again.files = (bench s gone).files := by
    refine ⟨⟨start.session, (bench s gone).files, log⟩, ?_, rfl⟩
    rw [Configuration.startSession_eq_ok]
    refine ⟨registry, log, h.fixed.registry.trans loaded, ?_⟩
    rw [begun]
  have akin : Akin T again (bench s gone) := by
    have akin := h.project.akin_again h.akin started (files ▸ h.fixed)
      (files ▸ h.wellFormed)
    rwa [files] at akin
  have back : Akin T (bench s gone) again :=
    .of_session h.wellFormed files akin.view.layout akin.view.registry akin.view.docs
      akin.pretty.symm
  have setting := back.setting h.setting
  have source : ∀ p ∈ c.sourceFiles again.files, p ∈ c.sourceFiles start.files := by
    rw [files, ← h.project.sourceFiles h.akin]
    exact fun p mem => (h.mem_sourceFiles mem).1
  have narrower : ∀ p, c.Compilable again p → c.Compilable start p := by
    rintro p (mem | ⟨raw, directory, exclude, named, mem⟩ | ⟨relative, found⟩)
    · exact .inl (source p mem)
    · exact setting.finds.variants raw directory exclude named p mem
    · exact setting.finds.single relative p found
  refine ⟨again, ⟨started, setting.sound, ?_, ?_, ?_⟩, files, akin⟩
  · rw [files, h.project.source]
    exact isDirectory_iff.mpr ⟨S, h.find⟩
  · exact fun p mem => h.project.visible p (source p mem)
  · exact fun x y hx hy => h.project.distinct x y (narrower x hx) (narrower y hy)

theorem enqueueRemovals (sub : ∀ d ∈ rest, d ∈ gone) (configured : l.configuration = c)
    (same : l.bench = bench s gone) : rest.foldl (fun l d => l.enqueueRemoval (pathOf d)) l =
      { l with deletions := l.deletions ++ rest.map pathOf } := by
  induction rest generalizing l with
  | nil => simp
  | cons d rest ih =>
    obtain ⟨mem, others⟩ := List.forall_mem_cons.mp sub
    have step : l.enqueueRemoval (pathOf d) =
        { l with deletions := l.deletions ++ [pathOf d] } := by
      unfold WatchLoop.enqueueRemoval WatchLoop.categorize
      rw [configured, same, h.template d mem, normalizePath_pathOf (h.place mem).1]
    have next := @ih { l with deletions := l.deletions ++ [pathOf d] } others configured same
    rw [List.foldl_cons, step, next, List.append_assoc]
    rfl

theorem passed_eq : gone.foldl (fun l d => l.enqueueRemoval (pathOf d))
    (s.withFiles (bench s gone).files).loop = passed s gone := by
  have configured : (s.withFiles (bench s gone).files).loop.configuration = c :=
    h.invariant.configured
  have undeleted : (s.withFiles (bench s gone).files).loop.deletions = [] :=
    h.invariant.undeleted
  rw [h.enqueueRemovals (fun _ => id) configured rfl, undeleted]
  rfl

/-! ## The drain -/

theorem output_inside (mem : q ∈ c.sourceFiles s.loop.bench.files) {o : Place}
    (leads : (c.layout.outputFor q).LeadsTo o) : Inside T o := by
  have hq := h.compilable mem
  rw [← h.toAtRest.layout] at leads
  exact (h.current mem _ .refl).good.output_inside h.toAtRest.setting hq leads

theorem output_leads (hd : d ∈ gone) {files : FileSystem} {o : Place}
    (found : files.find (c.layout.outputFor (pathOf d)) = .ok (o, .file contents)) :
    (c.layout.outputFor (pathOf d)).LeadsTo o := by
  have good := (h.current (h.sources d hd) _ .refl).good
  rw [← h.toAtRest.layout] at found ⊢
  exact good.output_leads h.toAtRest.setting (h.compilable (h.sources d hd)) found

theorem output_other (hq : c.Compilable start q) (file : (bench s gone).files.isFile q = true)
    {o : Place} (leads : (c.layout.outputFor q).LeadsTo o) :
    ∀ d ∈ gone, ¬ (c.layout.outputFor (pathOf d)).LeadsTo o := by
  intro d hd shared
  have same := (leads.same_iff shared).mpr rfl
  rw [h.project.distinct _ _ hq (h.compilable (h.sources d hd)) same, h.absent hd] at file
  cases file

theorem output_spared (mem : q ∈ c.sourceFiles s.loop.bench.files) {o : Place}
    (leads : (c.layout.outputFor q).LeadsTo o)
    (file : s.loop.bench.files.entry? o = some (.file contents)) :
    (bench s gone).files.entry? o = some (.file contents) := by
  refine (h.widened.files.file o (fun hd => ?_) _).mp file
  obtain ⟨names, rfl⟩ := (h.place hd).2
  exact h.project.sound.trees.apart.below.not_inside (h.output_inside mem leads)

end Departure

/-- Some deletions were carried out: those of the rest are still queued. -/
structure Drains (c : Configuration) (T : Place) (start : Workbench) (s : Watching)
    (gone rest : List Place) (l : WatchLoop) : Prop where
  deletions : l.deletions = rest.map pathOf
  healthy : l.Healthy
  akin : Akin T (Departure.bench s gone) l.bench
  edges : l.bench.session.imports.Joins (c.Compilable start)
  imports : ∀ p q, l.bench.session.imports.Has p q → s.loop.bench.session.imports.Has p q
  changes : ∀ y ∈ l.changes, Departure.Orphan c start s gone y
  outside : ∀ o, (∀ d ∈ gone, ¬ (c.layout.outputFor (pathOf d)).LeadsTo o) →
    l.bench.files.entry? o = (Departure.bench s gone).files.entry? o
  outputs : ∀ d ∈ gone, d ∈ rest ∨
    l.bench.files.isFile (c.layout.outputFor (pathOf d)) = false

namespace Departure

variable (h : Departure c S T start s gone)
include h

theorem drains : Drains c T start s gone gone (passed s gone) where
  deletions := rfl
  healthy :=
    have healthy := h.healthy
    ⟨healthy.noticed, healthy.healthy, healthy.partly⟩
  akin := .refl h.wellFormed
  edges := h.invariant.leaves.edges
  imports _ _ := id
  changes y mem := by
    have mem : y ∈ s.loop.changes := mem
    rw [h.rests.built] at mem
    exact absurd mem List.not_mem_nil
  outside _ _ := rfl
  outputs _ := .inl

section

variable (drains : Drains c T start s gone rest l)
include drains

theorem layout : l.bench.session.layout = c.layout := by
  rw [← drains.akin.view.layout]
  exact h.toAtRest.layout

/-- Whatever is left and leads to an orphan or to a deleted template is an orphan. -/
theorem orphan {changed : List Path}
    (depend : ∀ y ∈ changed, ∃ d ∈ gone, s.loop.bench.Depends y (pathOf d))
    (file : l.bench.files.isFile q = true)
    (listed : q ∈ l.bench.session.imports.affected changed) : Orphan c start s gone q := by
  obtain ⟨e, edge, rfl⟩ := Dependencies.exists_importer listed
  have hq := (drains.edges e edge).1
  obtain ⟨-, y, mem, reaches⟩ :=
    Dependencies.hasPath_affected_iff.mp (Dependencies.hasPath_of_mem listed)
  obtain ⟨d, hd, depends⟩ := depend y mem
  refine ⟨hq, h.isFile_akin drains.akin hq ▸ file, d, hd, ?_⟩
  exact (TransGen.mono drains.imports _ _ reaches).to_reflTransGen.trans depends

end

section

variable (hd : d ∈ gone) (drains : Drains c T start s gone (d :: rest) l)
include hd drains

theorem tick_files : l.tick.2.bench.files = l.bench.files ∨
    ∃ o contents, (c.layout.outputFor (pathOf d)).LeadsTo o ∧ Inside T o ∧
      l.bench.files.entry? o = some (.file contents) ∧
      l.tick.2.bench.files = l.bench.files.without (· == o) := by
  rcases WatchLoop.tick_files drains.deletions with removed | same
  · obtain ⟨o, contents, found, removed⟩ := removeFile_eq_ok.mp removed
    rw [h.layout drains] at found
    have leads := h.output_leads hd found
    have inside := h.output_inside (h.sources d hd) leads
    exact .inr ⟨o, contents, leads, inside, (find_eq_ok.mp found).2, removed⟩
  · exact .inl same

theorem tick_akin : Akin T l.bench l.tick.2.bench := by
  have session := WatchLoop.tick_imports drains.deletions
  rcases h.tick_files hd drains with same | ⟨o, contents, leads, inside, file, removed⟩
  · apply Akin.of_session drains.akin.files same <;> rw [session]
  · have sound := drains.akin.sound h.setting.sound
    have root := (sound.output (h.layout drains)).isAbsolute
    have akin : Akin T l.bench { l.bench with files := l.bench.files.without (· == o) } := by
      apply Akin.removed sound file inside
      intro name last
      obtain ⟨init, rfl⟩ := List.getLast?_eq_some_iff.mp last
      exact Layout.outputName_of_outputFor root leads.fileName?
    refine akin.trans ?_
    apply Akin.of_session akin.files removed <;> rw [session]

/-- A deletion keeps the invariant of the drain. -/
theorem drain : Drains c T start s gone rest l.tick.2 := by
  have queue : l.deletions = pathOf d :: rest.map pathOf := drains.deletions
  have session := WatchLoop.tick_imports queue
  obtain ⟨bench, changes, tick⟩ := WatchLoop.tick_drains queue
  have healthy := drains.healthy
  constructor
  case deletions => rw [tick]
  case healthy =>
    rw [tick]
    exact ⟨healthy.noticed, healthy.healthy, healthy.partly⟩
  case akin => exact drains.akin.trans (h.tick_akin hd drains)
  case edges =>
    rw [session]
    refine drains.edges.subset fun e mem => ?_
    exact (List.mem_filter.mp (List.mem_filter.mp mem).1).1
  case imports =>
    intro p q edge
    rw [session] at edge
    exact drains.imports p q (Dependencies.has_remove.mp edge).1
  case changes =>
    intro y mem
    rw [WatchLoop.tick_changes queue] at mem
    rcases List.mem_append.mp mem with mem | mem
    · exact drains.changes y mem
    · obtain ⟨listed, file⟩ := List.mem_filter.mp mem
      refine h.orphan drains (fun z mem => ⟨d, hd, ?_⟩) file listed
      obtain rfl := List.mem_singleton.mp mem
      exact .refl
  case outside =>
    intro o other
    rw [← drains.outside o other]
    rcases h.tick_files hd drains with same | ⟨o', contents, leads, -, -, removed⟩
    · rw [same]
    · rw [removed, entry?_without_self]
      rintro rfl
      exact other d hd leads
  case outputs =>
    intro e he
    have layout := h.layout drains
    rcases drains.outputs e he with mem | before
    · rcases List.mem_cons.mp mem with rfl | mem
      · exact .inr (layout ▸ WatchLoop.isFile_tick queue)
      · exact .inl mem
    · refine .inr (Bool.eq_false_iff.mpr fun file => ?_)
      rw [Bool.eq_false_iff] at before
      rcases WatchLoop.tick_files queue with removed | same
      · exact before (isFile_of_removeFile removed file)
      · exact before (same ▸ file)

end

/-- What is queued for deletion is drained. -/
theorem drained (sub : ∀ d ∈ rest, d ∈ gone) (drains : Drains c T start s gone rest l)
    (runs : l.RunsOut k) : ∃ m, Drains c T start s gone [] m ∧ m.RunsOut k ∧
      ∀ q, c.Compilable start q → (bench s gone).files.isFile q = true →
        WatchLoop.Deletes (WatchLoop.Survives q) l (rest.map pathOf) m := by
  induction rest generalizing l with
  | nil => exact ⟨l, drains, runs, fun q _ _ => .done l⟩
  | cons d rest ih =>
    obtain ⟨hd, others⟩ := List.forall_mem_cons.mp sub
    have tick := congrArg Prod.fst (WatchLoop.tick_eq_delete drains.deletions)
    cases runs with
    | idle idle => simp [tick] at idle
    | built built _ _ => simp [tick] at built
    | deleted _ runs =>
      obtain ⟨m, drained, runs, deletes⟩ := ih others (h.drain hd drains) runs
      refine ⟨m, drained, runs, fun q hq file => ?_⟩
      refine .deletion drains.deletions (fun e edge same => ?_) (deletes q hq file)
      obtain rfl := (h.setting.same_iff (drains.edges e edge).1 hq).mp same
      rw [h.isFile_akin drains.akin hq, file]

/-! ## The batch behind the drain -/

section

variable (drains : Drains c T start s gone [] m)
include drains

theorem queued : Queued (c.Compilable start) S T m where
  healthy := drains.healthy
  setting := drains.akin.setting h.setting
  distinct := h.layout drains ▸ h.project.distinct
  changes y mem := (drains.changes y mem).1
  edges := drains.edges

/-- The batch comprises the orphans. -/
theorem mem_plan (deletes : ∀ q, c.Compilable start q → (bench s gone).files.isFile q = true →
    WatchLoop.Deletes (WatchLoop.Survives q) (passed s gone) (gone.map pathOf) m) :
    q ∈ m.plan.1 ↔ Orphan c start s gone q := by
  rw [drains.healthy.plan]
  constructor
  · intro mem
    rcases List.mem_append.mp mem with mem | mem
    · exact drains.changes q mem
    · obtain ⟨listed, file⟩ := List.mem_filter.mp mem
      exact h.orphan drains (fun y mem => (drains.changes y mem).2.2) file listed
  · rintro ⟨hq, file, d, hd, depends⟩
    have others : ∀ t ∈ gone.map pathOf, t.same q = false := by
      intro t mem
      obtain ⟨e, he, rfl⟩ := List.mem_map.mp mem
      rw [Bool.eq_false_iff]
      intro same
      obtain rfl := (h.setting.same_iff (h.compilable (h.sources e he)) hq).mp same
      simp [h.absent he] at file
    have reaches : TransGen s.loop.bench.session.imports.Has q (pathOf d) := by
      rcases reflTransGen_iff_eq_or_transGen.mp depends with same | reaches
      · rw [← same, h.absent hd] at file
        cases file
      · exact reaches
    obtain ⟨y, mem, same⟩ := Dependencies.hasPath_iff.mp
      ((deletes q hq file).queues (List.mem_map_of_mem hd) others reaches)
    obtain rfl := (h.setting.same_iff hq (drains.changes y mem).1).mp same
    exact List.mem_append_left _ mem

theorem reads (hq : c.Compilable start q) (document : Json) :
    (bench s gone).files.readTemplate q = .ok document ↔
      m.bench.files.readTemplate q = .ok document := by
  obtain ⟨place, valid, rfl, outside⟩ := h.setting.admits q hq
  apply (readTemplate_congr fun text => ?_).symm
  apply readText_congr h.wellFormed drains.akin.files (leadsTo_pathOf valid)
  intro contents
  rw [drains.outside place fun d hd leads =>
    outside (h.output_inside (h.sources d hd) leads)]

/-- A template that is no orphan is rendered as it was, if its references read as they did. -/
theorem rendered (mem : q ∈ c.sourceFiles (bench s gone).files)
    (spared : ¬ Orphan c start s gone q)
    (text : ∀ schema, Compiles s.loop.bench (fun _ => False) q schema →
      (bench s gone).textOf schema = s.loop.bench.textOf schema) : Rendered m.bench q := by
  have before := h.toAtRest.setting
  obtain ⟨old, file⟩ := h.mem_sourceFiles mem
  have current := h.current old
  have hq := h.compilable old
  have good := (current q .refl).good
  have there : Rendered (bench s gone) q := by
    refine (current q .refl).toRendered.carried before hq ?_ text fun o text leads output => ?_
    · apply h.widened.seesAlike_back h.setting.sound.toRooted
        (fun site url hs => (h.pages h.fixed site url hs).symm) before h.directories hq good
      rintro x reach ⟨d, valid, hd, rfl⟩
      exact spared ⟨hq, file, d, hd, current.depends before hq reach⟩
    · rw [h.toAtRest.layout] at leads
      exact h.output_spared old leads output
  apply there.akin h.setting drains.akin hq
  · exact .of_reads hq fun x hx => h.reads drains hx
  · intro o text leads output
    have leads : (s.loop.bench.session.layout.outputFor q).LeadsTo o := leads
    rw [h.toAtRest.layout] at leads
    rw [drains.outside o (h.output_other hq file leads)]
    exact output

/-- No batch writes the output of a template that is gone. -/
theorem output_gone (caught : CaughtUp (c.Compilable start) T m k) (hd : d ∈ gone) :
    k.bench.files.isFile (c.layout.outputFor (pathOf d)) = false := by
  have compilable := h.compilable (h.sources d hd)
  have before := (drains.outputs d hd).resolve_left List.not_mem_nil
  rw [Bool.eq_false_iff] at before ⊢
  intro file
  obtain ⟨o, contents, found⟩ := isFile_iff.mp file
  have leads := h.output_leads hd found
  have place := leads
  rw [← h.layout drains] at place
  have there := (caught.output_iff _ compilable (fun reached => ?_) o place _).mp
    (find_eq_ok.mp found).2
  · refine before (isFile_iff.mpr ⟨o, contents, ?_⟩)
    exact find_transfer drains.akin.files leads found there id
  · -- What is reached compiles, but nothing is there to compile.
    have good := (caught.rendered _ compilable (.inl reached)).good
    have absent := h.isFile_akin (drains.akin.trans caught.akin) compilable
    rw [h.absent hd, good.isFile] at absent
    cases absent

end

end Departure

/-- When templates are deleted where nothing was left to do, and the deletions are passed, and the
loop runs until it is idle, no deleted template has an output. The templates that imported one at
some remove are what a full build would write, with all that they reach; so is every other template
whose references read as before. All that the former do not reach keep their outputs. -/
theorem deletion_builds (project : Project c S T start)
    (first : start.Fixed c (Watching.first c start).loop.bench.files)
    (run : ReflTransGen (Watching.Step c start) (Watching.first c start) s) (rests : s.Rests)
    (files : ∀ d ∈ gone, ∃ contents, s.loop.bench.files.entry? d = some (.file contents))
    (sources : ∀ d ∈ gone, pathOf d ∈ c.sourceFiles s.loop.bench.files)
    (fixed : start.Fixed c (Departure.bench s gone).files)
    (template : ∀ d ∈ gone, c.categorize (Departure.bench s gone).files (pathOf d) = .template)
    (runs : (gone.foldl (fun l d => l.enqueueRemoval (pathOf d))
      (s.withFiles (Departure.bench s gone).files).loop).RunsOut l)
    (still : start.Fixed c l.bench.files) :
    (∀ d ∈ gone, l.bench.files.isFile (c.layout.outputFor (pathOf d)) = false) ∧
    (∀ q ∈ c.sourceFiles l.bench.files,
      (∃ y, Departure.Orphan c start s gone y ∧ Reach (c.Compilable start) l.bench y q) ∨
        (∀ schema, Compiles s.loop.bench (fun _ => False) q schema →
          (Departure.bench s gone).textOf schema = s.loop.bench.textOf schema) →
      c.Reproduces l.bench.files q) ∧
    ∀ q ∈ c.sourceFiles l.bench.files,
      (¬ ∃ y, Departure.Orphan c start s gone y ∧ Reach (c.Compilable start) l.bench y q) →
      ∀ o contents, (c.layout.outputFor q).LeadsTo o →
        s.loop.bench.files.entry? o = some (.file contents) →
        l.bench.files.entry? o = some (.file contents) := by
  have h : Departure c S T start s gone :=
    ⟨⟨project, .run project first run, rests⟩, files, sources, fixed, template⟩
  rw [h.passed_eq] at runs
  obtain ⟨m, drains, runs, deletes⟩ := h.drained (fun _ => id) h.drains runs
  have queued := h.queued drains
  have caught := queued.caughtUp drains.deletions runs
  have reached : ∀ q, (∃ y ∈ m.plan.1, Reach (c.Compilable start) l.bench y q) ↔
      ∃ y, Departure.Orphan c start s gone y ∧ Reach (c.Compilable start) l.bench y q :=
    fun q => exists_congr fun y => and_congr_left fun _ => h.mem_plan drains deletes
  obtain ⟨again, narrower, same, akin⟩ := h.project_again
  have docs : again.session.docs = start.session.docs :=
    akin.view.docs.trans h.akin.view.docs.symm
  have akin : Akin T again l.bench := (akin.trans drains.akin).trans caught.akin
  have left : c.sourceFiles l.bench.files = c.sourceFiles (Departure.bench s gone).files := by
    rw [narrower.sourceFiles akin, same]
  refine ⟨fun d hd => ?_, fun q mem covered => ?_,
    fun q mem unreached o contents leads file => ?_⟩
  · exact h.output_gone drains caught hd
  · refine narrower.reproduces akin ((same ▸ fixed).between still docs) mem ?_
    rw [left] at mem
    apply caught.rendered q (h.compilable (h.mem_sourceFiles mem).1)
    rw [reached]
    by_cases orphan : Departure.Orphan c start s gone q
    · exact .inl ⟨q, orphan, .refl⟩
    · exact covered.imp_right fun text => h.rendered drains mem orphan text
  · rw [left] at mem
    obtain ⟨old, there⟩ := h.mem_sourceFiles mem
    have hq := h.compilable old
    have place := leads
    rw [← h.layout drains] at place
    refine (caught.output_iff q hq (by rwa [reached]) o place _).mpr ?_
    rw [drains.outside o (h.output_other hq there leads)]
    exact h.output_spared old leads file

/-! ## A template in an included directory -/

/-- A template that includes a directory, and one in the directory. -/
def listing : List (Place × Entry) :=
  [(["src"], .directory),
    (["src", "all.yml"], .file (.text "title: all\n$IMPORT:\n  type: include\n  path: types")),
    (["src", "types"], .directory), (["src", "types", "a.yml"], .file (.text "type: string"))]

theorem listing_project : Project plainConfiguration ["src"] ["out"] (plainSession listing) :=
  plainSession_project (.ofEntries (by decide) (by decide)) (by decide +kernel) (by decide +kernel)
    (by decide +kernel)

theorem listing_sources : plainConfiguration.sourceFiles (plainSession listing).files =
    [⟨"/src/all.yml"⟩, ⟨"/src/types/a.yml"⟩] :=
  sourceFiles_eq (by decide +kernel) (by decide +kernel)

/-- The first build of both templates. -/
@[irreducible]
def listingBatch : BatchReport × Workbench :=
  ((plainSession listing).say "build" s!"compiling {toString 2} templates").compileBatch
    [⟨"/src/all.yml"⟩, ⟨"/src/types/a.yml"⟩]

/-- The loop behind that build. -/
def listingFirst : Watching :=
  ⟨.start (listingBatch.2.summarize listingBatch.1) plainConfiguration, [], []⟩

theorem listing_built : (plainSession listing).buildAll plainConfiguration =
    (.ok (), listingBatch.2.summarize listingBatch.1) := by
  have ok : listingBatch.1.isOk = true := by decide +kernel
  rw [buildAll_of_ok (w := plainSession listing) (c := plainConfiguration) rfl]
  unfold listingBatch at ok ⊢
  exact buildSources_of_ok listing_sources rfl rfl ok

theorem listing_first :
    Watching.first plainConfiguration (plainSession listing) = listingFirst := by
  unfold Watching.first
  rw [listing_built]
  rfl

def listingGone : List Place := [["src", "types", "a.yml"]]

/-- The loop behind the deletion of the included template. -/
def listingDrained : WatchLoop := (Departure.passed listingFirst listingGone).tick.2

/-- What the evaluation of that loop shows: the template is deleted, the one that includes it is
queued, and the next batch does not fail. -/
theorem listing_facts :
    ((∀ d ∈ listingGone, listingFirst.loop.bench.files.entry? d =
        some (.file (.text "type: string"))) ∧
      ∀ d ∈ listingGone, plainConfiguration.categorize
        (Departure.bench listingFirst listingGone).files (pathOf d) = .template) ∧
    ((Departure.bench listingFirst listingGone).files.isFile ⟨"/src/all.yml"⟩ = true ∧
      ∃ e ∈ listingFirst.loop.bench.session.imports.edges,
        e.importer.same ⟨"/src/all.yml"⟩ = true ∧
        e.imported.same ⟨"/src/types/a.yml"⟩ = true) ∧
    (listingDrained.changes = [⟨"/src/all.yml"⟩] ∧ listingDrained.batch.1.isOk = true ∧
      ((listingDrained.reported.files.filesBelow plainConfiguration.source).filter fun file =>
        file.isTemplate && !ignoredFiles.contains (file.fileName?.getD "")) =
          [⟨"/src/all.yml"⟩]) := by
  decide +kernel

theorem listing_departure : Departure plainConfiguration ["src"] ["out"] (plainSession listing)
    listingFirst listingGone := by
  obtain ⟨⟨there, template⟩, -⟩ := listing_facts
  have invariant := Watching.Invariant.first listing_project (plainSession_fixed _ _)
  have rests := Watching.rests_first (c := plainConfiguration) (congrArg Prod.fst listing_built)
  rw [listing_first] at invariant rests
  refine ⟨⟨listing_project, invariant, rests⟩, fun d mem => ⟨_, there d mem⟩, fun d mem => ?_,
    plainSession_fixed _ _, template⟩
  rw [listing_project.sourceFiles invariant.leaves.akin, listing_sources,
    List.mem_singleton.mp mem]
  decide

theorem listing_runs : (listingGone.foldl (fun l d => l.enqueueRemoval (pathOf d))
    (listingFirst.withFiles (Departure.bench listingFirst listingGone).files).loop).RunsOut
      listingDrained.emptied := by
  obtain ⟨-, -, queued, ok, -⟩ := listing_facts
  have departure := listing_departure
  have drains : Drains _ _ _ _ _ _ listingDrained :=
    departure.drain List.mem_cons_self departure.drains
  rw [departure.passed_eq]
  apply WatchLoop.RunsOut.deleted
  · rw [WatchLoop.tick_eq_delete departure.drains.deletions]
  · exact drains.healthy.runsOut_of_isOk drains.deletions (by simp [queued]) ok

/-- The included template loses its output, and the one that includes it is what a full build would
write. -/
theorem deletion_builds_listing : ∃ l,
    (listingGone.foldl (fun l d => l.enqueueRemoval (pathOf d))
      (listingFirst.withFiles (Departure.bench listingFirst listingGone).files).loop).RunsOut l ∧
    (∀ d ∈ listingGone,
      l.bench.files.isFile (plainConfiguration.layout.outputFor (pathOf d)) = false) ∧
    plainConfiguration.Reproduces l.bench.files ⟨"/src/all.yml"⟩ := by
  obtain ⟨-, ⟨file, edge⟩, -, -, templates⟩ := listing_facts
  refine ⟨_, listing_runs, ?_⟩
  have h := listing_departure
  have builds := deletion_builds listing_project (plainSession_fixed _ _)
    (listing_first ▸ .refl) h.rests h.files h.sources h.fixed h.template listing_runs
    (plainSession_fixed _ _)
  have orphan : Departure.Orphan plainConfiguration (plainSession listing) listingFirst listingGone
      ⟨"/src/all.yml"⟩ := by
    refine ⟨.inl ?_, file, _, List.mem_cons_self, .single edge⟩
    rw [listing_sources]
    exact List.mem_cons_self
  refine ⟨builds.1, builds.2.1 _ ?_ (.inl ⟨_, orphan, .refl⟩)⟩
  show _ ∈ plainConfiguration.sourceFiles listingDrained.reported.files
  rw [sourceFiles_eq templates (by decide +kernel)]
  exact List.mem_cons_self

end SchemaLoom
