import SchemaLoom.Proofs.Watch.Deletion
import SchemaLoom.Proofs.Watch.Membership

/-!
# A template that is created

The import graph knows which template imported which, not which directories were listed. So a new
template that is passed to the loop is built with all that it reaches, and nothing else is. That is
what a full build would write for every template that neither finds the new one nor refers to it;
those that do keep their outputs.
-/

namespace SchemaLoom

open SchemaLoom.Path FileSystem Compile Relation

variable {S T place : Place} {start again : Workbench} {s : Watching}
  {c : Configuration} {l : WatchLoop} {p q : Path} {files : FileSystem} {contents : Contents}

/-- A directive of a template finds another one. -/
def Workbench.Discovers (w : Workbench) (x p : Path) : Prop :=
  ∃ document, w.files.readTemplate x = .ok document ∧ ∃ d ∈ document.imports, d.Finds w.sources p

theorem Configuration.categorize_found (found : files.find p = .ok (place, .file contents))
    (template : c.categorize files p = .template) :
    (pathOf place).startsWith c.source = true ∧ (pathOf place).isTemplate = true := by
  unfold Configuration.categorize at template
  rw [normalizePath_of_find found] at template
  by_contra other
  rw [← Bool.and_eq_true] at other
  simp only [other] at template
  split at template
  · cases template
  · split at template <;> cases template

/-- Where nothing was left to do a template was created, and with it the project is still one. -/
structure Arrival (c : Configuration) (S T : Place) (start : Workbench) (s : Watching)
    (again : Workbench) (p : Path) (place : Place) : Prop extends AtRest c S T start s where
  wider : Project c S T again
  fixed : start.Fixed c again.files
  arrives : Widens (· = place) s.loop.bench.files again.files
  found : ∃ contents, again.files.find p = .ok (place, .file contents)
  template : c.categorize again.files p = .template

namespace Arrival

/-- The bench of the loop, with the new template. -/
def bench (s : Watching) (again : Workbench) : Workbench :=
  { s.loop.bench with files := again.files }

/-- The loop to which the new template was passed. -/
def passed (s : Watching) (again : Workbench) (place : Place) : WatchLoop :=
  { s.loop with
    bench := bench s again
    changes := [pathOf place] }

variable (h : Arrival c S T start s again p place)
include h

theorem passed_eq : (s.withFiles again.files).loop.enqueueChange p = passed s again place := by
  obtain ⟨contents, found⟩ := h.found
  have category : (s.withFiles again.files).loop.categorize p = .template := by
    unfold WatchLoop.categorize
    rw [Watching.withFiles, h.invariant.configured]
    exact h.template
  unfold WatchLoop.enqueueChange
  rw [category]
  show { (s.withFiles again.files).loop with
    changes := s.loop.changes ++ [again.files.normalizePath p] } = _
  rw [normalizePath_of_find found, h.rests.built]
  rfl

theorem akin : Akin T again (bench s again) :=
  h.project.akin_again h.toAtRest.akin h.wider.started h.fixed h.wider.sound.files

theorem docs : again.session.docs = start.session.docs :=
  h.akin.view.docs.trans h.toAtRest.akin.view.docs.symm

theorem widened : Widened (· = place) s.loop.bench (bench s again) :=
  ⟨rfl, h.arrives, h.wider.sound.files⟩

theorem source : ValidPlace place ∧ S <+: place ∧ pathOf place ∈ c.sourceFiles again.files := by
  obtain ⟨contents, found⟩ := h.found
  have entry := (find_eq_ok.mp found).2
  have valid := h.wider.sound.files.valid entry
  have ne : place ≠ [] := by
    rintro rfl
    simp at entry
  obtain ⟨below, template⟩ := Configuration.categorize_found found h.template
  rw [h.wider.source, (leadsTo_pathOf valid).startsWith_iff
    (leadsTo_pathOf h.wider.sound.trees.valid)] at below
  refine ⟨valid, below, ?_⟩
  obtain ⟨names, rfl⟩ := below
  rw [h.wider.mem_sourceFiles (.refl h.wider.sound.files)]
  exact ⟨⟨names, contents, rfl, mem_entries entry ne⟩, template, not_mem_ignoredFiles template⟩

theorem sources : again.sources = (bench s again).sources := by
  unfold Workbench.sources
  rw [h.akin.view.layout]
  rfl

theorem setting : Setting (c.Compilable again) S T s.loop.bench := by
  have sound := h.toAtRest.setting.sound
  have finds : Finds (c.Compilable again) s.loop.bench := by
    apply (h.widened.finds h.wider.source (h.wider.find_akin h.akin) sound.toRooted
      fun q same => same ▸ h.source.2.1).mono
    exact fun x compilable => (h.wider.compilable_akin h.akin).mp compilable
  exact ⟨sound, h.wider.setting.admits, finds⟩

theorem compilable_mono (hq : c.Compilable start q) : c.Compilable again q := by
  rcases (h.project.compilable_akin h.toAtRest.akin).mpr hq with mem |
    ⟨raw, directory, exclude, named, mem⟩ | ⟨relative, found⟩
  · obtain ⟨⟨names, contents, rfl, entry⟩, template, -⟩ := h.toAtRest.mem_sourceFiles.mp mem
    exact .inl (h.widened.sourceFile h.wider.source (h.wider.find_akin h.akin)
      (List.prefix_append S names) template entry)
  · exact h.setting.finds.variants raw directory exclude named q mem
  · exact h.setting.finds.single relative q found

theorem other (hq : c.Compilable start q) : (pathOf place).same q = false := by
  have akin := h.toAtRest.akin
  have sound := h.toAtRest.setting.sound
  obtain ⟨there, contents, rfl, -, entry⟩ := sound.compilable_file
    (h.project.find_akin akin) h.project.source ((h.project.compilable_akin akin).mpr hq)
  rw [Bool.eq_false_iff]
  intro same
  have valid := sound.files.names _ entry
  obtain rfl := ((leadsTo_pathOf h.source.1).same_iff (leadsTo_pathOf valid)).mp same
  exact h.arrives.absent place rfl contents entry

theorem passed_layout : (passed s again place).bench.session.layout = c.layout :=
  h.akin.view.layout.symm.trans h.wider.layout

theorem queued : Queued (c.Compilable again) S T (passed s again place) where
  healthy :=
    have healthy := h.healthy
    ⟨healthy.noticed, healthy.healthy, healthy.partly⟩
  setting := h.akin.setting h.wider.setting
  distinct := by
    rw [h.passed_layout]
    exact h.wider.distinct
  changes y mem := by
    obtain rfl := List.mem_singleton.mp mem
    exact .inl h.source.2.2
  edges e mem := by
    obtain ⟨importer, imported⟩ := h.invariant.leaves.edges e mem
    exact ⟨h.compilable_mono importer, h.compilable_mono imported⟩

/-- Nothing imported the new template yet. -/
theorem mem_plan : q ∈ (passed s again place).plan.1 ↔ q = pathOf place := by
  rw [h.queued.healthy.plan]
  constructor
  · intro mem
    rcases List.mem_append.mp mem with mem | mem
    · exact List.mem_singleton.mp mem
    · have listed := Dependencies.hasPath_of_mem (List.mem_filter.mp mem).1
      obtain ⟨-, reaches⟩ := Dependencies.hasPath_affected_singleton.mp listed
      obtain ⟨z, -, e, edge, -, same⟩ := TransGen.tail'_iff.mp reaches
      have other := h.other (h.invariant.leaves.edges e edge).2
      rw [same_comm, same] at other
      cases other
  · rintro rfl
    exact List.mem_append_left _ List.mem_cons_self

/-- A template that was there, and finds nothing new, is rendered as it was if its references read
as they did. -/
theorem rendered (mem : q ∈ c.sourceFiles s.loop.bench.files)
    (spared : ∀ x, Reach (c.Compilable again) s.loop.bench q x →
      ¬ again.Discovers x (pathOf place))
    (text : ∀ schema, Compiles s.loop.bench (fun _ => False) q schema →
      again.textOf schema = s.loop.bench.textOf schema) : Rendered (bench s again) q := by
  have rendered := (h.current mem q .refl).toRendered
  have hq : c.Compilable again q := h.compilable_mono (h.compilable mem)
  have rooted := h.setting.sound.toRooted
  apply rendered.carried h.setting hq
  · apply h.widened.seesAlike rooted (h.pages h.fixed) h.setting hq rendered.good
    rintro x reach document read d mem _ finds ⟨place, valid, rfl, rfl⟩
    obtain ⟨hx, good⟩ := rendered.good.reach h.setting hq reach
    have there := (h.widened.readTemplate rooted (h.setting.admits x hx)
      (good.old h.arrives) document).mp read
    rw [← h.sources] at finds
    exact spared x reach ⟨document, there, d, mem, finds⟩
  · intro schema compiles
    rw [← text schema compiles]
    exact h.akin.view.textOf h.akin.pretty schema
  · exact fun o text _ file => h.arrives.keeps file

theorem mem_sourceFiles (mem : q ∈ c.sourceFiles again.files) (ne : q ≠ pathOf place) :
    q ∈ c.sourceFiles s.loop.bench.files := by
  obtain ⟨⟨names, contents, rfl, entry⟩, template⟩ :=
    (h.wider.mem_sourceFiles (.refl h.wider.sound.files)).mp mem
  have old : S ++ names ≠ place := fun same => ne (congrArg pathOf same)
  obtain ⟨contents, before⟩ := (h.arrives.lists old).mp ⟨contents, entry⟩
  exact h.toAtRest.mem_sourceFiles.mpr ⟨⟨names, contents, rfl, before⟩, template⟩

end Arrival

/-- When a template is created where nothing was left to do, and passed, and the loop runs until it
is idle, the templates that the new one reaches are what a full build would write. So is every other
template that reaches none that finds the new one, and whose references read as before. All that the
new one does not reach keep their outputs. -/
theorem creation_builds (project : Project c S T start)
    (first : start.Fixed c (Watching.first c start).loop.bench.files)
    (run : ReflTransGen (Watching.Step c start) (Watching.first c start) s) (rests : s.Rests)
    (wider : Project c S T again) (fixed : start.Fixed c again.files)
    (arrives : Widens (· = place) s.loop.bench.files again.files)
    (found : again.files.find p = .ok (place, .file contents))
    (template : c.categorize again.files p = .template)
    (runs : ((s.withFiles again.files).loop.enqueueChange p).RunsOut l)
    (still : start.Fixed c l.bench.files) :
    (∀ q ∈ c.sourceFiles l.bench.files,
      Reach (c.Compilable again) l.bench (pathOf place) q ∨
        ((∀ x, Reach (c.Compilable again) s.loop.bench q x →
            ¬ again.Discovers x (pathOf place)) ∧
          ∀ schema, Compiles s.loop.bench (fun _ => False) q schema →
            again.textOf schema = s.loop.bench.textOf schema) →
      c.Reproduces l.bench.files q) ∧
    ∀ q ∈ c.sourceFiles l.bench.files, ¬ Reach (c.Compilable again) l.bench (pathOf place) q →
      ∀ o contents, (c.layout.outputFor q).LeadsTo o →
        s.loop.bench.files.entry? o = some (.file contents) →
        l.bench.files.entry? o = some (.file contents) := by
  have h : Arrival c S T start s again p place :=
    ⟨⟨project, .run project first run, rests⟩, wider, fixed, arrives, ⟨contents, found⟩, template⟩
  rw [h.passed_eq] at runs
  have caught := h.queued.caughtUp h.invariant.undeleted runs
  have akin : Akin T again l.bench := h.akin.trans caught.akin
  have reached : ∀ q, (∃ y ∈ (Arrival.passed s again place).plan.1,
      Reach (c.Compilable again) l.bench y q) ↔
        Reach (c.Compilable again) l.bench (pathOf place) q := by
    intro q
    constructor
    · rintro ⟨y, mem, reach⟩
      exact h.mem_plan.mp mem ▸ reach
    · exact fun reach => ⟨_, h.mem_plan.mpr rfl, reach⟩
  constructor
  · intro q mem covered
    refine wider.reproduces akin (fixed.between still h.docs) mem ?_
    have source := wider.sourceFiles akin ▸ mem
    apply caught.rendered q (.inl source)
    rw [reached]
    by_cases new : q = pathOf place
    · exact .inl (new ▸ .refl)
    · exact covered.imp_right fun ⟨spared, text⟩ =>
        h.rendered (h.mem_sourceFiles source new) spared text
  · intro q mem unreached o contents leads file
    have source := wider.sourceFiles akin ▸ mem
    refine (caught.output_iff q (.inl source) (by rwa [reached]) o ?_ _).mpr (arrives.keeps file)
    rw [h.passed_layout]
    exact leads

/-! ## A third template -/

/-- The files behind the first build of two templates, and a third one. -/
def thirdFiles : FileSystem :=
  (sharedTitleBatch.2.summarize sharedTitleBatch.1).files.put ["src", "c.yml"]
    (.file (.text "title: c"))

def thirdSession : Workbench := plainSession thirdFiles.entries

/-- The loop behind that build, when the third template was created. -/
def thirdFirst : Watching :=
  ⟨.start (sharedTitleBatch.2.summarize sharedTitleBatch.1) plainConfiguration, [], []⟩

/-- The same loop, when the third template was passed to it. -/
def thirdPassed : WatchLoop := Arrival.passed thirdFirst thirdSession ["src", "c.yml"]

/-- What the evaluation of that loop shows: the third template makes another project, it is queued
under its own path, and the next batch does not fail. -/
theorem third_facts :
    ((sharedTitleBatch.2.summarize sharedTitleBatch.1).files.entry? ["src", "c.yml"] = none ∧
      thirdFiles.workingDirectory = []) ∧
    ((∀ e ∈ thirdSession.files.entries, ValidPlace e.1) ∧
      ∀ e ∈ thirdSession.files.entries,
        thirdSession.files.entry? e.1.dropLast = some .directory) ∧
    (thirdSession.files.find plainConfiguration.source = .ok (["src"], .directory) ∧
      (∀ e ∈ thirdFiles.entries, (pathOf e.1).isHidden = false) ∧
      ∀ e ∈ thirdFiles.entries, ¬ Inside ["out"] e.1 →
        ∀ f ∈ thirdFiles.entries, ¬ Inside ["out"] f.1 →
        (plainConfiguration.layout.outputFor (pathOf e.1)).same
          (plainConfiguration.layout.outputFor (pathOf f.1)) = true → e.1 = f.1) ∧
    (thirdSession.files.find ⟨"/src/c.yml"⟩ =
        .ok (["src", "c.yml"], .file (.text "title: c")) ∧
      plainConfiguration.categorize thirdSession.files ⟨"/src/c.yml"⟩ = .template) ∧
    (thirdPassed.batch.1.isOk = true ∧
      ((thirdPassed.reported.files.filesBelow plainConfiguration.source).filter fun file =>
        file.isTemplate && !ignoredFiles.contains (file.fileName?.getD "")) =
          [⟨"/src/a.yml"⟩, ⟨"/src/b.yml"⟩, ⟨"/src/c.yml"⟩]) := by
  decide +kernel

theorem third_arrival : Arrival plainConfiguration ["src"] ["out"] (plainSession sharedTitle)
    thirdFirst thirdSession ⟨"/src/c.yml"⟩ ["src", "c.yml"] := by
  obtain ⟨⟨free, root⟩, ⟨names, parents⟩, ⟨source, visible, distinct⟩, ⟨found, template⟩, -⟩ :=
    third_facts
  have wider : Project plainConfiguration ["src"] ["out"] thirdSession :=
    plainSession_project (.ofEntries names parents) source visible distinct
  have invariant := Watching.Invariant.first sharedTitle_project (plainSession_fixed _ _)
  have rests := Watching.rests_first (c := plainConfiguration)
    (congrArg Prod.fst sharedTitle_built)
  rw [sharedTitle_first] at invariant rests
  have same : thirdSession.files = thirdFiles := by
    show FileSystem.mk [] thirdFiles.entries = _
    rw [← root]
  have arrives : Widens (· = ["src", "c.yml"]) thirdFirst.loop.bench.files thirdSession.files := by
    rw [same]
    exact widens_put free
  exact ⟨⟨sharedTitle_project, invariant, rests⟩, wider, plainSession_fixed _ _, arrives,
    ⟨_, found⟩, template⟩

theorem third_runs : ((thirdFirst.withFiles thirdSession.files).loop.enqueueChange
    ⟨"/src/c.yml"⟩).RunsOut thirdPassed.emptied := by
  obtain ⟨-, -, -, -, ok, -⟩ := third_facts
  have arrival := third_arrival
  rw [arrival.passed_eq]
  exact arrival.queued.healthy.runsOut_of_isOk arrival.invariant.undeleted
    (List.cons_ne_nil _ _) ok

/-- The third template is built as a full build would. -/
theorem creation_builds_third : ∃ l,
    ((thirdFirst.withFiles thirdSession.files).loop.enqueueChange ⟨"/src/c.yml"⟩).RunsOut l ∧
      plainConfiguration.Reproduces l.bench.files ⟨"/src/c.yml"⟩ := by
  obtain ⟨-, -, -, ⟨found, template⟩, -, templates⟩ := third_facts
  refine ⟨_, third_runs, ?_⟩
  have h := third_arrival
  have builds := creation_builds sharedTitle_project (plainSession_fixed _ _)
    (sharedTitle_first ▸ .refl) h.rests h.wider h.fixed h.arrives found template third_runs
    (plainSession_fixed _ _)
  refine builds.1 _ ?_ (.inl .refl)
  show _ ∈ plainConfiguration.sourceFiles thirdPassed.reported.files
  rw [sourceFiles_eq templates (by decide +kernel)]
  simp

end SchemaLoom
