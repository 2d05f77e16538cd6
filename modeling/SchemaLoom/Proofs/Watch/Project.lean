import SchemaLoom.Proofs.FileSystem.Similar
import SchemaLoom.Proofs.Session.UpToDate

/-!
# Projects

A project is a configuration with a session started from it. Compilations look at the shape of its
source tree, at the registry, at the documentation and at the texts of templates. Building, editing
templates and removing the output tree keep all of that but the texts.
-/

namespace SchemaLoom

open SchemaLoom.Path FileSystem

variable {A : Path → Prop} {S T : Place} {w v u start : Workbench} {p : Path} {c : Configuration}
  {files : FileSystem}

/-! ## The roots of a configuration -/

namespace Workbench.Sound

variable (sound : w.Sound S T)
include sound

theorem root_ne : T ≠ [] := fun top => sound.trees.apart.2 (top ▸ List.nil_prefix)

theorem source (layout : w.session.layout = c.layout) : c.source = pathOf S := by
  have sourceAt := sound.trees.sourceAt
  rwa [layout] at sourceAt

theorem output (layout : w.session.layout = c.layout) : c.output.LeadsTo T := by
  have outputAt := sound.trees.outputAt
  rwa [layout] at outputAt

end Workbench.Sound

/-! ## Workbenches that differ in texts only -/

/-- The session is configured as it was, and the source tree has the shape that it had. -/
structure Akin (T : Place) (w v : Workbench) : Prop where
  view : SameView w v
  pretty : v.session.isPretty = w.session.isPretty
  files : WellFormed v.files
  similar : Similar T w.files v.files

namespace Akin

theorem trans (h : Akin T w v) (h' : Akin T v u) : Akin T w u :=
  ⟨h.view.trans h'.view, h'.pretty.trans h.pretty, h'.files, h.similar.trans h'.similar⟩

theorem sound (h : Akin T w v) (sound : w.Sound S T) : v.Sound S T where
  trees := h.view.layout ▸ sound.trees
  files := h.files
  root := (h.similar.directory S sound.trees.apart).mpr sound.root
  docs site hs := sound.docs site (h.view.docs.trans hs)

theorem setting (h : Akin T w v) (setting : Setting A S T w) : Setting A S T v :=
  ⟨h.sound setting.sound, setting.admits, setting.finds.sameView h.view⟩

/-- Of the session only the configured parts count. -/
theorem of_session (wf : WellFormed w.files) (files : v.files = w.files)
    (layout : v.session.layout = w.session.layout)
    (registry : v.session.registry = w.session.registry)
    (docs : v.session.docs = w.session.docs)
    (pretty : v.session.isPretty = w.session.isPretty) : Akin T w v := by
  have sources : v.sources = w.sources := by simp [Workbench.sources, layout, files]
  refine ⟨⟨layout.symm, registry.symm, docs.symm, ?_, ?_, ?_, ?_⟩, pretty, files ▸ wf,
    files ▸ .refl T w.files⟩
  · intro raw
    rw [sources]
  · intro raw directory exclude _
    rw [sources]
  · intro relative
    rw [layout, files]
  · intro site url _
    rw [files]

theorem refl (wf : WellFormed w.files) : Akin T w w := of_session wf rfl rfl rfl rfl rfl

theorem quiet (wf : WellFormed w.files) (h : Quiet w v) : Akin T w v := by
  obtain ⟨files, diagnostics, session⟩ := h
  apply of_session wf files <;> rw [session]

theorem of_upheld (sound : w.Sound S T) (h : Upheld A T w v) : Akin T w v :=
  ⟨sound.sameView h.unchanged, h.unchanged.isPretty, h.unchanged.wellFormed sound.files,
    h.unchanged.files.similar⟩

end Akin

/-- The shape of the source tree decides what an expansion looks at. -/
theorem Workbench.Rooted.sameView_of_similar (rooted : w.Rooted S T)
    (layout : v.session.layout = w.session.layout)
    (registry : v.session.registry = w.session.registry)
    (docs : v.session.docs = w.session.docs) (files : WellFormed v.files)
    (similar : Similar T w.files v.files)
    (pages : ∀ site url, w.session.docs = some site →
      (site.page w.files url).toOption = (site.page v.files url).toOption) : SameView w v := by
  refine ⟨layout.symm, registry.symm, docs.symm, fun raw => ?_,
    fun raw directory exclude hd => ?_, fun relative => ?_, pages⟩
  · unfold Sources.importDirectory
    simp only [Workbench.sources, layout]
    split
    · rfl
    · rename_i directory hdir
      obtain ⟨b, hb, rfl⟩ := rooted.trees.sourceDirectory? hdir
      have same :=
        similar.isDirectory rooted.files files (leadsTo_pathOf hb) rooted.trees.apart.below
      simp only [same]
      rfl
  · obtain ⟨b, hb, rfl⟩ := importDirectory_eq_ok rooted.trees.source rooted.trees.apart.ne_nil hd
    unfold Sources.variants
    simp only [Workbench.sources]
    rw [similar.filesIn rooted.files files (leadsTo_pathOf hb) rooted.trees.apart.below]
  · unfold FileSystem.findSource?
    rw [layout]
    apply find?_congr
    intro file mem
    obtain ⟨place, hv, rfl, outside⟩ := rooted.trees.candidates mem
    exact (similar.isFile rooted.files files (leadsTo_pathOf hv) outside).symm

theorem Akin.edited (sound : w.Sound S T) {place : Place} {old new : Contents}
    (h : w.files.entry? place = some (.file old))
    (pages : ∀ site url, w.session.docs = some site → (site.page w.files url).toOption =
      (site.page (w.files.put place (.file new)) url).toOption) :
    Akin T w { w with files := w.files.put place (.file new) } := by
  have ne : place ≠ [] := by
    rintro rfl
    simp at h
  have wf : WellFormed (w.files.put place (.file new)) :=
    sound.files.put (sound.files.stands (by simp [h])) ne fun hd => by simp [h] at hd
  have similar : Similar T w.files (w.files.put place (.file new)) := similar_put h
  exact ⟨sound.toRooted.sameView_of_similar rfl rfl rfl wf similar pages, rfl, wf, similar⟩

/-- Removing an output leaves the documentation in place. -/
theorem Akin.removed (sound : w.Sound S T) {o : Place} {contents : Contents}
    (file : w.files.entry? o = some (.file contents)) (inside : Inside T o)
    (named : ∀ name, o.getLast? = some name → OutputName name) :
    Akin T w { w with files := w.files.without (· == o) } := by
  have gone : ∀ q : Place, (q == o) = true → q = o := fun q same => by simpa using same
  have wf : WellFormed (w.files.without (· == o)) :=
    sound.files.without_files fun q same => ⟨contents, gone q same ▸ file⟩
  have similar : Similar T w.files (w.files.without (· == o)) :=
    similar_without sound.root_ne (fun q same => gone q same ▸ inside.1) fun same =>
      absurd (gone T same) inside.2.symm
  refine ⟨sound.toRooted.sameView_of_similar rfl rfl rfl wf similar fun site url hs => ?_, rfl, wf,
    similar⟩
  obtain ⟨D, hD⟩ := sound.docs site hs
  have top : o ≠ [] := by
    rintro rfl
    simp at file
  exact (SamePages.without top named).page sound.files wf hD url

/-! ## Sessions of a configuration -/

namespace Configuration

theorem startSession_eq_ok : c.startSession files = .ok w ↔ ∃ registry log,
    c.loadRegistry files = .ok (registry, log) ∧
      w = ⟨.start c.layout registry (c.docsRoot.map fun root => ⟨root, c.docsBaseUrl⟩) c.isPretty,
        files, log⟩ := by
  unfold startSession
  split
  · rename_i failure hr
    simp [hr]
  · rename_i registry log hr
    constructor
    · intro h
      exact ⟨registry, log, hr, (Except.ok.inj h).symm⟩
    · rintro ⟨registry', log', hr', rfl⟩
      obtain ⟨rfl, rfl⟩ : registry = registry' ∧ log = log' := by simpa using hr.symm.trans hr'
      rfl

theorem mem_sourceFiles (source : c.source = pathOf S) (wf : WellFormed files)
    (find : files.find (pathOf S) = .ok (S, .directory)) : p ∈ c.sourceFiles files ↔
      (∃ names contents, p = pathOf (S ++ names) ∧ (S ++ names, .file contents) ∈ files.entries) ∧
        p.isTemplate = true ∧ p.fileName?.getD "" ∉ ignoredFiles := by
  unfold Configuration.sourceFiles
  rw [mem_templatesBelow, source, mem_filesBelow wf find]

/-- The templates of a project, and what else an import can name. -/
def Compilable (c : Configuration) (start : Workbench) (p : Path) : Prop :=
  p ∈ c.sourceFiles start.files ∨ start.Offers p

end Configuration

/-- The name of a file starts with a dot. -/
def Path.isHidden (p : Path) : Bool := (p.fileName?.getD "").toList.head? == some '.'

/-- A session was started in a source tree whose templates show their names and share no output. -/
structure Project (c : Configuration) (S T : Place) (start : Workbench) : Prop where
  started : c.startSession start.files = .ok start
  sound : start.Sound S T
  directory : start.files.isDirectory c.source = true
  visible : ∀ p ∈ c.sourceFiles start.files, p.isHidden = false
  distinct : NoSharing (c.Compilable start) c.layout

namespace Project

variable (project : Project c S T start)
include project

theorem layout : start.session.layout = c.layout := by
  obtain ⟨registry, log, -, hw⟩ := Configuration.startSession_eq_ok.mp project.started
  rw [hw]
  rfl

theorem source : c.source = pathOf S := project.sound.source project.layout

theorem find : start.files.find (pathOf S) = .ok (S, .directory) := by
  have directory := project.directory
  rw [project.source] at directory
  obtain ⟨place, hf⟩ := isDirectory_iff.mp directory
  obtain ⟨rfl, -⟩ := find_leadsTo (leadsTo_pathOf project.sound.trees.valid) hf
  exact hf

theorem find_akin (h : Akin T start w) : w.files.find (pathOf S) = .ok (S, .directory) :=
  have trees := project.sound.trees
  (h.similar.find_directory project.sound.files h.files (leadsTo_pathOf trees.valid)
    trees.apart).mpr project.find

theorem mem_sourceFiles (h : Akin T start w) : p ∈ c.sourceFiles w.files ↔
    (∃ names contents, p = pathOf (S ++ names) ∧ (S ++ names, .file contents) ∈ w.files.entries) ∧
      p.isTemplate = true ∧ p.fileName?.getD "" ∉ ignoredFiles :=
  c.mem_sourceFiles project.source h.files (project.find_akin h)

theorem setting : Setting (c.Compilable start) S T start := by
  have finds := project.sound.toRooted.finds
  refine ⟨project.sound, ?_, ?_, ?_⟩
  · rintro p (mem | ⟨raw, directory, exclude, hd, mem⟩ | ⟨relative, found⟩)
    · obtain ⟨⟨names, contents, rfl, file⟩, -⟩ :=
        (project.mem_sourceFiles (.refl project.sound.files)).mp mem
      have valid := project.sound.files.names _ file
      exact ⟨_, valid, rfl, project.sound.trees.apart.below.not_inside⟩
    · exact finds.variants raw directory exclude hd p mem
    · exact finds.single relative p found
  · intro raw directory exclude hd d mem
    exact .inr (.inl ⟨raw, directory, exclude, hd, mem⟩)
  · intro relative d found
    exact .inr (.inr ⟨relative, found⟩)

theorem sourceFiles (h : Akin T start w) : c.sourceFiles w.files = c.sourceFiles start.files := by
  unfold Configuration.sourceFiles
  rw [project.source]
  exact h.similar.templatesBelow project.sound.files h.files
    (leadsTo_pathOf project.sound.trees.valid) project.sound.trees.apart project.find

end Project

/-! ## Projects of a plain configuration -/

/-- Templates in `/src` with outputs in `/out`, without a registry and without documentation. -/
def plainConfiguration : Configuration :=
  { Configuration.standard with source := ⟨"/src"⟩, output := ⟨"/out"⟩, isPretty := false }

/-- A session of that configuration on a table of entries. -/
def plainSession (entries : List (Place × Entry)) : Workbench where
  session := .start plainConfiguration.layout none none false
  files := ⟨[], entries⟩
  log := []

theorem plainConfiguration_trees : plainConfiguration.layout.Trees ["src"] ["out"] :=
  ⟨by decide, by decide, by decide, by decide⟩

theorem Workbench.Sound.compilable_file (sound : w.Sound S T)
    (find : w.files.find (pathOf S) = .ok (S, .directory)) (source : c.source = pathOf S)
    (h : c.Compilable w p) : ∃ place contents, p = pathOf place ∧ ¬ Inside T place ∧
      (place, .file contents) ∈ w.files.entries := by
  rcases h with mem | ⟨raw, directory, exclude, hd, mem⟩ | ⟨relative, found⟩
  · obtain ⟨⟨names, contents, same, entry⟩, -⟩ :=
      (c.mem_sourceFiles source sound.files find).mp mem
    exact ⟨_, contents, same, sound.trees.apart.below.not_inside, entry⟩
  · obtain ⟨place, contents, -, same, outside, entry⟩ :=
      sound.toRooted.offered.variants raw directory exclude hd p mem
    exact ⟨place, contents, same, outside, entry⟩
  · obtain ⟨place, contents, -, same, outside, entry⟩ :=
      sound.toRooted.offered.single relative p found
    exact ⟨place, contents, same, outside, entry⟩

/-- What makes a table of entries a project of the plain configuration can be checked. -/
theorem plainSession_project {entries : List (Place × Entry)}
    (files : WellFormed (plainSession entries).files)
    (find : (plainSession entries).files.find plainConfiguration.source = .ok (["src"], .directory))
    (visible : ∀ e ∈ entries, (pathOf e.1).isHidden = false)
    (distinct : ∀ e ∈ entries, ¬ Inside ["out"] e.1 → ∀ f ∈ entries, ¬ Inside ["out"] f.1 →
      (plainConfiguration.layout.outputFor (pathOf e.1)).same
        (plainConfiguration.layout.outputFor (pathOf f.1)) = true → e.1 = f.1) :
    Project plainConfiguration ["src"] ["out"] (plainSession entries) := by
  have source : plainConfiguration.source = pathOf ["src"] := plainConfiguration_trees.sourceAt
  have sound : (plainSession entries).Sound ["src"] ["out"] :=
    ⟨⟨plainConfiguration_trees, files, (find_eq_ok.mp find).2⟩,
      fun _ h => by simp [plainSession, Session.start] at h⟩
  refine ⟨rfl, sound, isDirectory_iff.mpr ⟨_, find⟩, ?_, ?_⟩
  · intro p mem
    rw [source] at find
    obtain ⟨place, contents, rfl, -, entry⟩ := sound.compilable_file find source (.inl mem)
    exact visible (place, .file contents) entry
  · intro x y hx hy same
    rw [source] at find
    obtain ⟨a, contents, rfl, outA, ha⟩ := sound.compilable_file find source hx
    obtain ⟨b, contents', rfl, outB, hb⟩ := sound.compilable_file find source hy
    exact congrArg pathOf
      (distinct (a, .file contents) ha outA (b, .file contents') hb outB same)

end SchemaLoom
