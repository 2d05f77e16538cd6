import SchemaLoom.Proofs.FileSystem.Widening
import SchemaLoom.Proofs.Session.Lookups

/-!
# What templates see of new files

A directive sees a new template only if it finds it: if it finds none, it finds what it found
before. So a template sees the same as before, as long as nothing that it reaches finds a new one.
-/

namespace SchemaLoom

open SchemaLoom.Path FileSystem

variable {A : Path → Prop} {S T : Place} {more : Place → Prop} {w v : Workbench} {p x : Path}
  {raw : String} {exclude : List String}

theorem find?_of_found {α : Type} {f g : α → Bool} {list : List α}
    (keeps : ∀ a ∈ list, f a = true → g a = true)
    (found : ∀ a, list.find? g = some a → f a = true) : list.find? f = list.find? g := by
  induction list with
  | nil => rfl
  | cons a list ih =>
    obtain ⟨first, rest⟩ := List.forall_mem_cons.mp keeps
    cases hg : g a with
    | true =>
      have hf : f a = true := found a (List.find?_cons_of_pos hg)
      rw [List.find?_cons_of_pos hf, List.find?_cons_of_pos hg]
    | false =>
      have hf : ¬ f a = true := fun hf => by simp [first hf] at hg
      have hg : ¬ g a = true := by simp [hg]
      rw [List.find?_cons_of_neg hf, List.find?_cons_of_neg hg]
      exact ih rest fun b hb => found b (by rwa [List.find?_cons_of_neg hg])

/-- The path of a new file. -/
def IsNew (more : Place → Prop) (p : Path) : Prop :=
  ∃ place, ValidPlace place ∧ more place ∧ p = pathOf place

/-- One session on two file systems, the second of which is wider. -/
structure Widened (more : Place → Prop) (w v : Workbench) : Prop where
  session : v.session = w.session
  files : Widens more w.files v.files
  wellFormed : WellFormed v.files

/-- The wider file system has no more directories. -/
def SameDirectories (w v : Workbench) : Prop :=
  ∀ q, v.files.entry? q = some .directory → w.files.entry? q = some .directory

theorem importDirectory_iff {directory : Path} : w.sources.importDirectory raw = .ok directory ↔
    w.session.layout.sourceDirectory? (Sources.relativeImport raw) = some directory ∧
      w.files.isDirectory directory = true := by
  unfold Sources.importDirectory Workbench.sources
  cases w.session.layout.sourceDirectory? (Sources.relativeImport raw) with
  | none => simp
  | some there =>
    by_cases directory : w.files.isDirectory there = true
    · simp only [directory, if_true, Except.ok.injEq, Option.some.injEq]
      exact ⟨fun same => ⟨same, same ▸ directory⟩, And.left⟩
    · simp only [directory, Option.some.injEq]
      refine iff_of_false (by simp) ?_
      rintro ⟨rfl, found⟩
      exact directory found

namespace Widened

variable (widened : Widened more w v) (rooted : w.Rooted S T)
include widened rooted

theorem importDirectory {directory : Path} (named : w.sources.importDirectory raw = .ok directory) :
    v.sources.importDirectory raw = .ok directory := by
  obtain ⟨found, there⟩ := importDirectory_iff.mp named
  obtain ⟨b, valid, rfl⟩ := rooted.trees.sourceDirectory? found
  rw [importDirectory_iff, widened.session]
  exact ⟨found, widened.files.isDirectory widened.wellFormed (leadsTo_pathOf valid) there⟩

theorem importDirectory_back (directories : SameDirectories w v) {directory : Path}
    (named : v.sources.importDirectory raw = .ok directory) :
    w.sources.importDirectory raw = .ok directory := by
  obtain ⟨found, there⟩ := importDirectory_iff.mp named
  rw [widened.session] at found
  obtain ⟨b, valid, rfl⟩ := rooted.trees.sourceDirectory? found
  obtain ⟨place, here⟩ := isDirectory_iff.mp there
  obtain ⟨rfl, entry⟩ := find_leadsTo (leadsTo_pathOf valid) here
  rw [importDirectory_iff]
  exact ⟨found, isDirectory_iff.mpr ⟨_, find_transfer rooted.files (leadsTo_pathOf valid) here
    (directories _ entry) id⟩⟩

/-- A directory in which nothing new is listed is listed as before. -/
theorem sameVariants {directory : Path} (named : w.sources.importDirectory raw = .ok directory)
    (spared : ∀ x, v.sources.Lists raw exclude x → ¬ IsNew more x) :
    w.sources.SameVariants v.sources raw exclude := by
  have named' := widened.importDirectory rooted named
  refine ⟨named.trans named'.symm, fun other same => ?_⟩
  obtain rfl := Except.ok.inj (named.symm.trans same)
  obtain ⟨found, there⟩ := importDirectory_iff.mp named
  obtain ⟨b, valid, rfl⟩ := rooted.trees.sourceDirectory? found
  obtain ⟨base, here⟩ := isDirectory_iff.mp there
  obtain ⟨rfl, -⟩ := find_leadsTo (leadsTo_pathOf valid) here
  have wide := widened.files.find_directory widened.wellFormed (leadsTo_pathOf valid) here
  refine (widened.files.filesIn widened.wellFormed (leadsTo_pathOf valid) here ?_).symm
  intro name contents new mem
  by_contra kept
  refine spared _ ⟨_, named', List.mem_filter.mpr ⟨mem_filesIn wide mem, by simpa using kept⟩⟩ ?_
  have place := widened.wellFormed.names _ mem
  exact ⟨_, place, new, pathOf_join valid place.last⟩

/-- A name that finds nothing new finds what it found before. -/
theorem single? (a : Import.Include)
    (spared : ∀ x, ImportDirective.single? v.sources a = some x → ¬ IsNew more x) :
    ImportDirective.single? w.sources a = ImportDirective.single? v.sources a := by
  have paths : ∀ x ∈ w.session.layout.candidates ⟨Sources.relativeImport a.path⟩,
      ∃ place, ValidPlace place ∧ x = pathOf place := by
    intro x mem
    obtain ⟨place, valid, same, -⟩ := rooted.trees.candidates mem
    exact ⟨place, valid, same⟩
  unfold ImportDirective.single? FileSystem.findSource? Workbench.sources at spared ⊢
  simp only [widened.session] at spared ⊢
  apply find?_of_found
  · intro x mem file
    obtain ⟨place, valid, rfl⟩ := paths x mem
    exact widened.files.isFile_mono widened.wellFormed (leadsTo_pathOf valid) file
  · intro x found
    obtain ⟨place, valid, rfl⟩ := paths x (List.mem_of_find?_eq_some found)
    have old : ¬ more place := fun new => spared _ found ⟨place, valid, new, rfl⟩
    rw [← widened.files.isFile rooted.files widened.wellFormed (leadsTo_pathOf valid) old]
    exact List.find?_some found

/-- A directive that finds nothing new finds what it found before. -/
theorem alike {d : ImportDirective} (opens : d.Opens w.sources)
    (spared : ∀ x, d.Finds v.sources x → ¬ IsNew more x) : d.Alike w v := by
  cases d with
  | conditional a =>
    obtain ⟨directory, named⟩ := opens
    exact widened.sameVariants rooted named spared
  | conditionalContents a =>
    obtain ⟨directory, named⟩ := opens
    exact widened.sameVariants rooted named spared
  | registry a =>
    show _ = _
    rw [widened.session]
  | filesIntoArray a =>
    obtain ⟨directory, named⟩ := opens
    exact widened.sameVariants rooted named spared
  | include_ a =>
    have single := widened.single? rooted a fun x found => spared x (.inl found)
    refine ⟨single, fun none => ?_⟩
    obtain ⟨directory, named⟩ := opens none
    exact widened.sameVariants rooted named fun x listed =>
      spared x (.inr ⟨single.symm.trans none, listed⟩)

/-- Where only files come and go, a directive that finds nothing new lists a directory in both. -/
theorem opens_back (directories : SameDirectories w v) {d : ImportDirective}
    (opens : d.Opens v.sources) (spared : ∀ x, d.Finds v.sources x → ¬ IsNew more x) :
    d.Opens w.sources := by
  have back : ∀ {raw}, (∃ directory, v.sources.importDirectory raw = .ok directory) →
      ∃ directory, w.sources.importDirectory raw = .ok directory := fun named =>
    named.imp fun _ => widened.importDirectory_back rooted directories
  cases d with
  | conditional a => exact back opens
  | conditionalContents a => exact back opens
  | registry a => trivial
  | filesIntoArray a => exact back opens
  | include_ a =>
    intro none
    have single := widened.single? rooted a fun x found => spared x (.inl found)
    exact back (opens (single.symm.trans none))

theorem readTemplate (hx : Admits T x) (old : ¬ IsNew more x) (document : Json) :
    w.files.readTemplate x = .ok document ↔ v.files.readTemplate x = .ok document := by
  obtain ⟨place, valid, rfl, -⟩ := hx
  apply (readTemplate_congr fun s => ?_).symm
  exact widened.files.readText rooted.files widened.wellFormed (leadsTo_pathOf valid)
    fun new => old ⟨place, valid, new, rfl⟩

end Widened

/-! ## What a template reaches -/

theorem Good.old (h : Widens more w.files v.files) (good : Good w x) :
    ¬ IsNew more x := by
  rintro ⟨place, valid, new, rfl⟩
  obtain ⟨s, ⟨known, -, -, read, -⟩⟩ := good
  obtain ⟨text, read, -⟩ := readTemplate_eq_ok read
  obtain ⟨q, found⟩ := readText_eq_ok.mp read
  obtain ⟨rfl, file⟩ := find_leadsTo (leadsTo_pathOf valid) found
  exact Empties.entry? (h.absent q new) _ file

namespace Widened

variable (widened : Widened more w v) (rooted : w.Rooted S T)
  (pages : ∀ site url, w.session.docs = some site →
    (site.page w.files url).toOption = (site.page v.files url).toOption)
include widened rooted pages

theorem seesAlike (setting : Setting A S T w) (hp : A p) (good : Good w p)
    (spared : ∀ x, Reach A w p x → ∀ document, w.files.readTemplate x = .ok document →
      ∀ d ∈ document.imports, ∀ y, d.Finds v.sources y → ¬ IsNew more y) : SeesAlike A w v p where
  docs := by rw [widened.session]
  page := pages
  sources x reach := by
    obtain ⟨hx, goodX⟩ := good.reach setting hp reach
    refine ⟨by rw [widened.session], widened.readTemplate rooted (setting.admits x hx)
      (goodX.old widened.files), fun document read d mem => ?_⟩
    exact widened.alike rooted (goodX.looked read d mem).1 (spared x reach document read d mem)

/-- Removing files changes nothing for a template that reaches none of them. -/
theorem seesAlike_back (setting : Setting A S T v) (directories : SameDirectories w v) (hp : A p)
    (good : Good v p) (old : ∀ x, Reach A v p x → ¬ IsNew more x) : SeesAlike A v w p where
  docs := by rw [widened.session]
  page site url hs := (pages site url (by rwa [widened.session] at hs)).symm
  sources x reach := by
    obtain ⟨hx, goodX⟩ := good.reach setting hp reach
    refine ⟨by rw [widened.session], fun document => (widened.readTemplate rooted
      (setting.admits x hx) (old x reach) document).symm, fun document read d mem => ?_⟩
    obtain ⟨opens, asked⟩ := goodX.looked read d mem
    have spared : ∀ y, d.Finds v.sources y → ¬ IsNew more y := fun y found =>
      old y (reach.tail ⟨found.admitted setting.finds, asked y found⟩)
    exact (widened.alike rooted (widened.opens_back rooted directories opens spared) spared).symm

end Widened

end SchemaLoom
