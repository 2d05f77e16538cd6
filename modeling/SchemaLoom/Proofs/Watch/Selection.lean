import SchemaLoom.Proofs.Watch.Delivery

/-!
# Full builds and the loop select templates

A full build lists the files of the source tree and leaves out few names, the loop is told of a file
and leaves out the names that editors leave behind. Of the files that exist both select those with a
template's extension, except that the loop passes over names that begin with a dot: an output of
such a template is not brought up to date by watching it alone.
-/

namespace SchemaLoom

open SchemaLoom.Path FileSystem

variable {l : WatchLoop} {c : Configuration} {files : FileSystem} {p : Path}

/-- A full build compiles the file. -/
def Configuration.Builds (c : Configuration) (files : FileSystem) (p : Path) : Prop :=
  ∃ q ∈ c.sourceFiles files, q.same p = true

/-! ## Selections -/

theorem FileSystem.isAbsolute_of_startsWith {root : Path}
    (directory : files.isDirectory root = true)
    (absolute : p.isAbsolute = true) (begins : p.startsWith root = true) :
    root.isAbsolute = true := by
  obtain ⟨place, found⟩ := isDirectory_iff.mp directory
  have written : root.chars ≠ [] := by
    intro empty
    simp [find, locate, empty] at found
  obtain ⟨first, more, whole⟩ := List.exists_cons_of_ne_nil (components_ne_nil written)
  obtain ⟨rest, same⟩ := isAbsolute_iff_components.mp absolute
  rw [Path.startsWith_iff, whole, same, List.cons_prefix_cons] at begins
  exact isAbsolute_iff_components.mpr ⟨more, begins.1 ▸ whole⟩

/-- A full build compiles the files below the source root with a template's extension. -/
theorem Configuration.builds_iff (wf : WellFormed files)
    (root : files.isDirectory c.source = true) (file : files.HasFile p) :
    c.Builds files p ↔ p.startsWith c.source = true ∧ p.isTemplate = true := by
  obtain ⟨base, found⟩ := isDirectory_iff.mp root
  obtain ⟨place, contents, leads, there⟩ := file.leadsTo wf
  have congr : ∀ q : Path, q.same p = true → q.isTemplate = p.isTemplate := fun q same =>
    isTemplate_congr (by rw [Path.fileName?, Path.fileName?, same_iff.mp same])
  unfold Builds sourceFiles
  constructor
  · rintro ⟨q, mem, same⟩
    obtain ⟨mem, template, -⟩ := mem_templatesBelow.mp mem
    rw [filesBelow_of_find found, List.mem_filterMap] at mem
    obtain ⟨⟨_, entry⟩, mem, named⟩ := mem
    cases entry with
    | directory => exact absurd named (by simp [ofFile])
    | file contents =>
      obtain ⟨names, hn, rfl⟩ := Option.map_eq_some_iff.mp named
      obtain rfl := namesBelow?_eq_some.mp hn
      have valid := (wf.names _ mem).right
      refine ⟨?_, congr _ same ▸ template⟩
      have components := same_iff.mp same
      cases absolute : c.source.isAbsolute with
      | true =>
        rw [components_extended absolute valid] at components
        exact Path.startsWith_iff.mpr ⟨_, components⟩
      | false =>
        have relative := isAbsolute_extended absolute valid
        rw [isAbsolute_iff_components.mpr ⟨_, components.trans leads⟩] at relative
        simp at relative
  · rintro ⟨begins, template⟩
    have absolute := isAbsolute_of_startsWith root leads.isAbsolute begins
    obtain ⟨rest, whole⟩ := Path.startsWith_iff.mp begins
    -- The path of the root is part of a path without `..`.
    have noUp : Component.up ∉ c.source.components := by
      intro mem
      have mem : Component.up ∈ p.components := whole ▸ List.mem_append_left rest mem
      rw [leads] at mem
      simp at mem
    obtain ⟨S, source⟩ := leadsTo_of_not_mem_up absolute noUp
    obtain ⟨rfl, -⟩ := find_leadsTo source found
    obtain ⟨names, rfl⟩ := (leads.startsWith_iff source).mp begins
    have same : (extended c.source names).same p = true :=
      ((leadsTo_extended source leads.valid.right).same_iff leads).mpr rfl
    refine ⟨extended c.source names, mem_templatesBelow.mpr ⟨?_, ?_, ?_⟩, same⟩
    · have ne : base ++ names ≠ [] := by
        intro top
        simp [top] at there
      rw [filesBelow_of_find found, List.mem_filterMap]
      exact ⟨_, mem_entries there ne, by simp [ofFile, namesBelow?_eq_some.mpr rfl]⟩
    · exact (congr _ same).trans template
    · exact not_mem_ignoredFiles ((congr _ same).trans template)

/-! ## Changes of files -/

namespace WatchLoop

theorem exists_mem_plan (queued : p ∈ l.changes) (builds : l.configuration.Builds l.bench.files p) :
    ∃ q ∈ l.plan.1, q.same p = true := by
  by_cases all : l.rebuildsAll = true ∨ l.lastFailed = true
  · rw [plan_of_all all]
    exact builds
  · simp only [not_or, Bool.not_eq_true] at all
    rw [plan_of_partly all.1 all.2]
    exact ⟨p, List.mem_append_left _ queued, same_self p⟩

/-- The next batch compiles a template: it fails there or is known to the session behind it. -/
def Compiles (l : WatchLoop) (p : Path) : Prop :=
  ∃ q, q.same p = true ∧ (q ∈ l.build.1.failing ∨ l.build.2.bench.Knows q)

theorem compiles_of_queued (queued : p ∈ l.changes)
    (builds : l.configuration.Builds l.bench.files p) : l.Compiles p := by
  obtain ⟨q, planned, same⟩ := exists_mem_plan queued builds
  refine ⟨q, same, ?_⟩
  by_cases fails : q ∈ l.build.1.failing
  · exact .inl fails
  · refine .inr ((knows_quiet l.build_quiet).mpr (knows_of_not_listed planned fun e listed => ?_))
    exact fails (BatchReport.mem_failing.mpr ⟨e, listed⟩)

theorem tick_of_queued (drained : l.deletions = []) (queued : p ∈ l.changes)
    (builds : l.configuration.Builds l.bench.files p) :
    l.tick = (.built l.checkRegistry.build.1, l.checkRegistry.build.2) ∧
      l.checkRegistry.Compiles p := by
  rcases l.tick_cases with ⟨source, rest, queue, -⟩ | ⟨-, ⟨empty, -⟩, -⟩ | ⟨-, -, ticked⟩
  · simp [drained] at queue
  · simp [empty] at queued
  · refine ⟨ticked, ?_⟩
    obtain ⟨bench, checked, files, -⟩ := l.checkRegistry_cases
    apply compiles_of_queued
    · rw [checked]
      exact queued
    · rw [checked, files]
      exact builds

/-- A change to an existing file that is no registry is queued exactly if a full build compiles the
file and its name does not begin with a dot, and is passed over otherwise. What is queued is
compiled as soon as no deletion waits. -/
theorem enqueueChange_selects (wf : WellFormed l.bench.files)
    (root : l.bench.files.isDirectory l.configuration.source = true)
    (file : l.bench.files.HasFile p) (other : l.configuration.registry.any p.same = false) :
    (l.enqueueChange p = { l with changes := l.changes ++ [p] } ↔
      l.configuration.Builds l.bench.files p ∧ p.isHidden = false) ∧
    (¬ (l.configuration.Builds l.bench.files p ∧ p.isHidden = false) → l.enqueueChange p = l) ∧
    (l.configuration.Builds l.bench.files p → p.isHidden = false → l.deletions = [] →
      (l.enqueueChange p).tick = (.built (l.enqueueChange p).checkRegistry.build.1,
          (l.enqueueChange p).checkRegistry.build.2) ∧
        (l.enqueueChange p).checkRegistry.Compiles p) := by
  have selected : (p.startsWith l.configuration.source && p.isTemplate && !p.isHidden) = true ↔
      l.configuration.Builds l.bench.files p ∧ p.isHidden = false := by
    rw [Configuration.builds_iff wf root file]
    simp
  have category := Configuration.categorize_of_file (c := l.configuration) file other
  have queued : l.configuration.Builds l.bench.files p ∧ p.isHidden = false →
      l.enqueueChange p = { l with changes := l.changes ++ [p] } := by
    intro both
    rw [if_pos (selected.mpr both)] at category
    unfold enqueueChange categorize
    rw [category, file.normalizePath]
  have ignored : ¬ (l.configuration.Builds l.bench.files p ∧ p.isHidden = false) →
      l.enqueueChange p = l := by
    intro neither
    rw [if_neg (mt selected.mp neither)] at category
    unfold enqueueChange categorize
    rw [category]
  refine ⟨⟨fun told => ?_, queued⟩, ignored, ?_⟩
  · by_contra neither
    have same := congrArg WatchLoop.changes ((ignored neither).symm.trans told)
    simp at same
  · intro builds visible drained
    rw [queued ⟨builds, visible⟩]
    exact tick_of_queued drained (List.mem_append_right _ List.mem_cons_self) builds

end WatchLoop

/-! ## A hidden template -/

/-- Two templates, the name of one beginning with a dot. -/
def hiddenTemplate : List (Place × Entry) :=
  [(["src"], .directory),
    (["src", ".x.yml"], .file (.text "title: hidden\n")),
    (["src", "y.yml"], .file (.text "title: shown\n"))]

def hiddenTemplateLoop : WatchLoop := .start (plainSession hiddenTemplate) plainConfiguration

/-- A full build compiles both, and the loop takes notice of changes to one only. -/
theorem enqueueChange_selects_hiddenTemplate :
    (plainConfiguration.Builds hiddenTemplateLoop.bench.files ⟨"/src/.x.yml"⟩ ∧
      hiddenTemplateLoop.enqueueChange ⟨"/src/.x.yml"⟩ = hiddenTemplateLoop) ∧
    plainConfiguration.Builds hiddenTemplateLoop.bench.files ⟨"/src/y.yml"⟩ ∧
      (hiddenTemplateLoop.enqueueChange ⟨"/src/y.yml"⟩).changes = [⟨"/src/y.yml"⟩] ∧
      (hiddenTemplateLoop.enqueueChange ⟨"/src/y.yml"⟩).checkRegistry.Compiles ⟨"/src/y.yml"⟩ := by
  have wf : WellFormed hiddenTemplateLoop.bench.files := .ofEntries (by decide) (by decide)
  have root : hiddenTemplateLoop.bench.files.isDirectory hiddenTemplateLoop.configuration.source =
      true := by decide +kernel
  have hidden : hiddenTemplateLoop.bench.files.HasFile ⟨"/src/.x.yml"⟩ :=
    ⟨["src", ".x.yml"], .text "title: hidden\n", by decide +kernel, by decide +kernel⟩
  have shown : hiddenTemplateLoop.bench.files.HasFile ⟨"/src/y.yml"⟩ :=
    ⟨["src", "y.yml"], .text "title: shown\n", by decide +kernel, by decide +kernel⟩
  have hiddenBuilt := (Configuration.builds_iff wf root hidden).mpr (by decide +kernel)
  have shownBuilt := (Configuration.builds_iff wf root shown).mpr (by decide +kernel)
  obtain ⟨-, ignored, -⟩ := WatchLoop.enqueueChange_selects wf root hidden rfl
  obtain ⟨queued, -, compiled⟩ := WatchLoop.enqueueChange_selects wf root shown rfl
  refine ⟨⟨hiddenBuilt, ignored fun both => absurd both.2 (by decide +kernel)⟩, shownBuilt, ?_, ?_⟩
  · rw [queued.mpr ⟨shownBuilt, by decide +kernel⟩]
    rfl
  · exact (compiled shownBuilt (by decide +kernel) rfl).2

end SchemaLoom
