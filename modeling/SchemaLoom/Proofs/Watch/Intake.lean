import SchemaLoom.Proofs.Watch.Project
import SchemaLoom.Watch.Loop

/-!
# Queueing changes

A template passed to the loop under any of its paths is queued under its canonical one, unless it is
the registry. Only templates of the source tree are queued.
-/

namespace SchemaLoom

open SchemaLoom.Path FileSystem

variable {S T : Place} {start : Workbench} {p q : Path} {c : Configuration} {l : WatchLoop}
  {files : FileSystem}

namespace Path

/-- A template has one of the extensions, and its name ends like it. -/
theorem extension?_of_isTemplate (h : p.isTemplate = true) :
    ∃ e ∈ templateExtensions, p.extension? = some e ∧
      (p.fileName?.getD "").toList.getLast? = e.toList.getLast? := by
  unfold isTemplate at h
  cases he : p.extension? with
  | none => simp [he] at h
  | some e =>
    have known : e ∈ templateExtensions := by simpa [he] using h
    refine ⟨e, known, rfl, ?_⟩
    unfold extension? at he
    obtain ⟨name, hn, cut⟩ := Option.bind_eq_some_iff.mp he
    obtain ⟨ext, found, rfl⟩ := Option.map_eq_some_iff.mp cut
    obtain ⟨whole, -, -⟩ := eq_of_cutName (Prod.ext rfl found)
    rw [hn, Option.getD_some, whole, List.getLast?_append, List.getLast?_cons, String.toList_ofList]
    cases last : ext.getLast? with
    | some d => rfl
    | none =>
      rw [List.getLast?_eq_none_iff.mp last] at known
      exact absurd known (by decide)

theorem isTemporary_eq_false (template : p.isTemplate = true) (visible : p.isHidden = false) :
    p.isTemporary = false := by
  obtain ⟨e, known, he, last⟩ := extension?_of_isTemplate template
  unfold isHidden at visible
  unfold isTemporary
  simp only [he, last, visible, Option.getD_some, Bool.or_false]
  unfold templateExtensions at known
  simp only [List.mem_cons, List.not_mem_nil, or_false] at known
  rcases known with rfl | rfl | rfl <;> decide

theorem isTemporary_congr (h : p.fileName? = q.fileName?) : p.isTemporary = q.isTemporary := by
  unfold isTemporary extension?
  rw [h]

theorem not_mem_ignoredFiles (template : p.isTemplate = true) :
    p.fileName?.getD "" ∉ ignoredFiles := by
  intro mem
  obtain ⟨e, known, -, last⟩ := extension?_of_isTemplate template
  rw [List.mem_singleton.mp mem] at last
  unfold templateExtensions at known
  simp only [List.mem_cons, List.not_mem_nil, or_false] at known
  revert last
  rcases known with rfl | rfl | rfl <;> decide

end Path

theorem fileName?_pathOf {fs : FileSystem} (wf : WellFormed fs) {place : Place}
    {contents : Contents} (h : fs.find p = .ok (place, .file contents)) :
    p.fileName? = (pathOf place).fileName? := by
  rw [wf.fileName?_of_find h]
  obtain ⟨-, file⟩ := find_eq_ok.mp h
  rcases List.eq_nil_or_concat' place with rfl | ⟨above, s, rfl⟩
  · simp at file
  · rw [(leadsTo_pathOf (wf.valid file)).fileName?, List.getLast?_concat]

/-! ## Canonical paths -/

/-- A file stands at the canonical path. -/
def FileSystem.HasFile (files : FileSystem) (p : Path) : Prop :=
  ∃ place contents, files.find p = .ok (place, .file contents) ∧ p = pathOf place

namespace FileSystem.HasFile

variable (file : files.HasFile p)
include file

theorem normalizePath : files.normalizePath p = p := by
  obtain ⟨place, contents, found, canonical⟩ := file
  rw [normalizePath_of_find found, ← canonical]

theorem leadsTo (wf : WellFormed files) :
    ∃ place contents, p.LeadsTo place ∧ files.entry? place = some (.file contents) := by
  obtain ⟨place, contents, found, rfl⟩ := file
  have there := (find_eq_ok.mp found).2
  exact ⟨place, contents, leadsTo_pathOf (wf.valid there), there⟩

end FileSystem.HasFile

/-- An existing file that is no registry is a template by its place, its extension and the first
character of its name. -/
theorem Configuration.categorize_of_file (file : files.HasFile p)
    (other : c.registry.any p.same = false) :
    c.categorize files p =
      if p.startsWith c.source && p.isTemplate && !p.isHidden then .template else .unknown := by
  unfold categorize
  simp only [file.normalizePath, other, Bool.false_eq_true, if_false]
  cases template : p.isTemplate with
  | false => simp
  | true =>
    cases hidden : p.isHidden with
    | false => simp [isTemporary_eq_false template hidden]
    | true =>
      have temporary : p.isTemporary = true := by
        unfold isHidden at hidden
        simp [isTemporary, hidden]
      simp [temporary]

/-! ## Queues -/

/-- The ways in which the loop takes notice of a file that changed. -/
theorem enqueueChange_cases (project : Project c S T start) (configured : l.configuration = c)
    (akin : Akin T start l.bench) (found : l.bench.files.isFile p = true) :
    (∃ q ∈ c.sourceFiles start.files, l.bench.files.normalizePath p = q ∧
        l.enqueueChange p = { l with changes := l.changes ++ [q] }) ∨
      l.enqueueChange p = { l with registryChanged := true } ∨
      l.enqueueChange p = l ∧ l.bench.files.normalizePath p ∉ c.sourceFiles start.files := by
  obtain ⟨place, contents, hf⟩ := isFile_iff.mp found
  have normal := normalizePath_of_find hf
  have named := fileName?_pathOf akin.files hf
  have file := (find_eq_ok.mp hf).2
  have ne : place ≠ [] := by
    rintro rfl
    simp at file
  have leads := leadsTo_pathOf (akin.files.valid file)
  have root := leadsTo_pathOf project.sound.trees.valid
  -- What is not queued for its name or its place is no template of the source tree.
  have template : pathOf place ∈ c.sourceFiles start.files →
      p.isTemporary = false ∧ (pathOf place).startsWith c.source = true ∧
        (pathOf place).isTemplate = true := by
    intro mem
    have visible := project.visible _ mem
    rw [← project.sourceFiles akin] at mem
    obtain ⟨⟨names, old, same, entry⟩, template, -⟩ := (project.mem_sourceFiles akin).mp mem
    have valid := akin.files.names _ entry
    refine ⟨?_, ?_, template⟩
    · rw [isTemporary_congr named]
      exact isTemporary_eq_false template visible
    · rw [same, project.source, (leadsTo_pathOf valid).startsWith_iff root]
      exact List.prefix_append S names
  unfold WatchLoop.enqueueChange WatchLoop.categorize Configuration.categorize
  rw [configured, normal]
  cases temporary : p.isTemporary with
  | true =>
    refine .inr (.inr ⟨rfl, fun mem => ?_⟩)
    simp [(template mem).1] at temporary
  | false =>
    by_cases registry : c.registry.any (pathOf place).same = true
    · simp [registry]
    · by_cases below : (pathOf place).startsWith c.source = true ∧ (pathOf place).isTemplate = true
      · refine .inl ⟨pathOf place, ?_, rfl, by simp [registry, below]⟩
        have inside := below.1
        rw [project.source, leads.startsWith_iff root] at inside
        obtain ⟨names, rfl⟩ := inside
        rw [← project.sourceFiles akin, project.mem_sourceFiles akin]
        exact ⟨⟨names, contents, rfl, mem_entries file ne⟩, below.2, not_mem_ignoredFiles below.2⟩
      · refine .inr (.inr ⟨by simp [registry, below], fun mem => ?_⟩)
        exact below (template mem).2

end SchemaLoom