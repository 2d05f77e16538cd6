import SchemaLoom.Proofs.Session.Pages
import SchemaLoom.Proofs.Session.Uniform

/-!
# Inputs of a compilation

With the output root apart from the source root, writing outputs changes nothing that a compilation
looks at.
-/

namespace SchemaLoom

open SchemaLoom.Path FileSystem

/-- Canonical paths that lead to no place inside the output tree. -/
def Admits (T : Place) (p : Path) : Prop :=
  ∃ place, ValidPlace place ∧ p = pathOf place ∧ ¬ Inside T place

theorem Admits.eq_of_same {T : Place} {p q : Path} (hp : Admits T p) (hq : Admits T q)
    (h : p.same q = true) : p = q := by
  obtain ⟨a, ha, rfl, -⟩ := hp
  obtain ⟨b, hb, rfl, -⟩ := hq
  rw [((leadsTo_pathOf ha).same_iff (leadsTo_pathOf hb)).mp h]

/-- The trees of a session are apart, and the source root is a directory. -/
structure Workbench.Rooted (w : Workbench) (S T : Place) : Prop where
  trees : w.session.layout.Trees S T
  files : WellFormed w.files
  root : w.files.entry? S = some .directory

/-- The documentation has a normalized root as well, wherever that is. -/
structure Workbench.Sound (w : Workbench) (S T : Place) : Prop extends w.Rooted S T where
  docs : ∀ site, w.session.docs = some site → ∃ D, site.root.LeadsTo D

/-- The session is configured as it was, and only outputs were written. -/
structure Unchanged (T : Place) (w v : Workbench) : Prop where
  layout : v.session.layout = w.session.layout
  registry : v.session.registry = w.session.registry
  docs : v.session.docs = w.session.docs
  isPretty : v.session.isPretty = w.session.isPretty
  files : Grown T w.files v.files
  wellFormed : WellFormed w.files → WellFormed v.files
  pages : SamePages w.files v.files

namespace Unchanged

variable {T : Place} {w v u : Workbench}

theorem refl (w : Workbench) : Unchanged T w w :=
  ⟨rfl, rfl, rfl, rfl, .refl, id, .refl w.files⟩

theorem trans (h : Unchanged T w v) (h' : Unchanged T v u) : Unchanged T w u :=
  ⟨h'.layout.trans h.layout, h'.registry.trans h.registry, h'.docs.trans h.docs,
    h'.isPretty.trans h.isPretty, h.files.trans h'.files, h'.wellFormed ∘ h.wellFormed,
    h.pages.trans h'.pages⟩

theorem quiet (h : Unchanged T w v) (hq : Quiet v u) : Unchanged T w u := by
  obtain ⟨files, diagnostics, session⟩ := hq
  refine ⟨?_, ?_, ?_, ?_, files ▸ h.files, files ▸ h.wellFormed, files ▸ h.pages⟩
  · rw [session]; exact h.layout
  · rw [session]; exact h.registry
  · rw [session]; exact h.docs
  · rw [session]; exact h.isPretty

theorem modifySession (h : Unchanged T w v) {f : Session → Session}
    (layout : (f v.session).layout = v.session.layout)
    (registry : (f v.session).registry = v.session.registry)
    (docs : (f v.session).docs = v.session.docs)
    (isPretty : (f v.session).isPretty = v.session.isPretty) :
    Unchanged T w (v.modifySession f) :=
  ⟨layout.trans h.layout, registry.trans h.registry, docs.trans h.docs, isPretty.trans h.isPretty,
    h.files, h.wellFormed, h.pages⟩

end Unchanged

theorem SameView.symm {w v : Workbench} (h : SameView w v) : SameView v w where
  layout := h.layout.symm
  registry := h.registry.symm
  docs := h.docs.symm
  directory raw := (h.directory raw).symm
  variants raw directory exclude hd :=
    (h.variants raw directory exclude ((h.directory raw).trans hd)).symm
  single relative := (h.single relative).symm
  page site url hs := (h.page site url (h.docs.trans hs)).symm

theorem SameView.trans {w v u : Workbench} (h : SameView w v) (h' : SameView v u) :
    SameView w u where
  layout := h.layout.trans h'.layout
  registry := h.registry.trans h'.registry
  docs := h.docs.trans h'.docs
  directory raw := (h.directory raw).trans (h'.directory raw)
  variants raw directory exclude hd := (h.variants raw directory exclude hd).trans
    (h'.variants raw directory exclude ((h.directory raw).symm.trans hd))
  single relative := (h.single relative).trans (h'.single relative)
  page site url hs := (h.page site url hs).trans (h'.page site url (h.docs.symm.trans hs))

theorem Finds.mono {A B : Path → Prop} {w : Workbench} (h : Finds A w) (weaker : ∀ d, A d → B d) :
    Finds B w :=
  ⟨fun raw directory exclude hd d mem => weaker d (h.variants raw directory exclude hd d mem),
    fun relative d hd => weaker d (h.single relative d hd)⟩

/-- Where imports name the same directories and find the same in them, they find the same. -/
theorem Finds.transfer {A : Path → Prop} {w v : Workbench} (h : Finds A w)
    (directory : ∀ raw, w.sources.importDirectory raw = v.sources.importDirectory raw)
    (variants : ∀ raw directory exclude, w.sources.importDirectory raw = .ok directory →
      w.sources.variants directory exclude = v.sources.variants directory exclude)
    (single : ∀ relative, w.files.findSource? w.session.layout relative =
      v.files.findSource? v.session.layout relative) : Finds A v where
  variants raw dir exclude hd d mem := by
    have hd' := (directory raw).trans hd
    rw [← variants raw dir exclude hd'] at mem
    exact h.variants raw dir exclude hd' d mem
  single relative d hd := h.single relative d ((single relative).trans hd)

theorem Finds.sameView {A : Path → Prop} {w v : Workbench} (h : Finds A w) (view : SameView w v) :
    Finds A v :=
  h.transfer view.directory view.variants view.single

theorem find?_congr {α : Type} {f g : α → Bool} {list : List α} (h : ∀ a ∈ list, f a = g a) :
    list.find? f = list.find? g := by
  induction list with
  | nil => rfl
  | cons a list ih =>
    rw [List.find?_cons, List.find?_cons, h a List.mem_cons_self,
      ih fun b mem => h b (List.mem_cons_of_mem _ mem)]

/-! ## What an import can name -/

theorem importDirectory_eq_ok {S : Place} {w : Workbench}
    (source : w.session.layout.source.LeadsTo S) (below : S ≠ []) {raw : String} {directory : Path}
    (hd : w.sources.importDirectory raw = .ok directory) :
    ∃ b, ValidPlace (S ++ b) ∧ directory = pathOf (S ++ b) := by
  unfold Sources.importDirectory at hd
  split at hd
  · simp at hd
  · rename_i found hfound
    split at hd
    · exact Except.ok.inj hd ▸ Layout.sourceDirectory?_eq_some source below hfound
    · simp at hd

/-- The variants of an import are templates directly in a directory of the source tree. -/
theorem mem_variants {S : Place} {w : Workbench} (source : w.session.layout.source.LeadsTo S)
    (below : S ≠ []) (files : WellFormed w.files) {raw : String} {directory d : Path}
    {exclude : List String} (hd : w.sources.importDirectory raw = .ok directory)
    (mem : d ∈ w.sources.variants directory exclude) : d.isTemplate = true ∧
      ∃ b name contents, ValidPlace (S ++ b ++ [name]) ∧ d = pathOf (S ++ b ++ [name]) ∧
        (S ++ b ++ [name], .file contents) ∈ w.files.entries := by
  obtain ⟨b, hb, rfl⟩ := importDirectory_eq_ok source below hd
  obtain ⟨mem, kept⟩ := List.mem_filter.mp mem
  refine ⟨(Bool.and_eq_true_iff.mp kept).1, b, ?_⟩
  simp only [Workbench.sources] at mem
  by_cases hf : w.files.find (pathOf (S ++ b)) = .ok (S ++ b, .directory)
  · rw [filesIn_of_find hf] at mem
    obtain ⟨name, hn, rfl⟩ := List.mem_map.mp mem
    rw [List.mem_mergeSort] at hn
    obtain ⟨⟨place, entry⟩, he, hname⟩ := List.mem_filterMap.mp hn
    have hv := files.names _ he
    obtain rfl : place = S ++ b ++ [name] := fileIn_eq_some hname
    cases entry with
    | directory => simp [fileIn] at hname
    | file contents => exact ⟨name, contents, hv, pathOf_join hb hv.last, he⟩
  · rw [filesIn_eq_nil] at mem
    · simp at mem
    · intro base hbase
      obtain ⟨rfl, -⟩ := find_leadsTo (leadsTo_pathOf hb) hbase
      exact hf hbase

/-- What an import can name is a file in the source tree or beside its root. -/
theorem finds_near {S : Place} {w : Workbench} (source : w.session.layout.source.LeadsTo S)
    (below : S ≠ []) (files : WellFormed w.files) :
    Finds (fun d => ∃ place contents, ValidPlace place ∧ d = pathOf place ∧ Near S place ∧
      (place, .file contents) ∈ w.files.entries) w := by
  constructor
  · intro raw directory exclude hd d mem
    obtain ⟨-, b, name, contents, hv, rfl, he⟩ := mem_variants source below files hd mem
    refine ⟨_, contents, hv, rfl, .inl ?_, he⟩
    rw [List.append_assoc]
    exact List.prefix_append S _
  · intro relative d hd
    obtain ⟨place, hv, rfl, near⟩ :=
      Layout.candidates_near source below (List.mem_of_find?_eq_some hd)
    obtain ⟨q, contents, hq⟩ := isFile_iff.mp (List.find?_some hd)
    obtain ⟨rfl, he⟩ := find_leadsTo (leadsTo_pathOf hv) hq
    have ne : q ≠ [] := by
      rintro rfl
      simp at he
    exact ⟨q, contents, hv, rfl, near, mem_entries he ne⟩

namespace Workbench.Rooted

variable {S T : Place} {w v : Workbench} (rooted : w.Rooted S T)
include rooted

theorem of_unchanged (h : Unchanged T w v) : v.Rooted S T :=
  ⟨h.layout ▸ rooted.trees, h.wellFormed rooted.files, h.files.keepsDirectory rooted.root⟩

theorem ne_of_readText {place : Place} {s : String} (hv : ValidPlace place)
    (read : w.files.readText (pathOf place) = .ok s) : place ≠ [] ∧ place ≠ S := by
  obtain ⟨q, hf⟩ := readText_eq_ok.mp read
  obtain ⟨rfl, he⟩ := find_leadsTo (leadsTo_pathOf hv) hf
  constructor
  · rintro rfl
    simp at he
  · rintro rfl
    simp [rooted.root] at he

theorem offered : Finds (fun d => ∃ place contents, ValidPlace place ∧ d = pathOf place ∧
    ¬ Inside T place ∧ (place, .file contents) ∈ w.files.entries) w :=
  (finds_near rooted.trees.source rooted.trees.apart.ne_nil rooted.files).mono
    fun _ ⟨place, contents, hv, hd, near, mem⟩ =>
      ⟨place, contents, hv, hd, near.not_inside rooted.trees.apart, mem⟩

theorem finds : Finds (Admits T) w :=
  rooted.offered.mono fun _ ⟨place, _, hv, hd, ho, _⟩ => ⟨place, hv, hd, ho⟩

theorem readText (h : Unchanged T w v) {p : Path} (hp : Admits T p) {s : String} :
    v.files.readText p = .ok s ↔ w.files.readText p = .ok s := by
  obtain ⟨place, hv, rfl, ho⟩ := hp
  exact h.files.readText rooted.files (leadsTo_pathOf hv) ho

theorem importDirectory (h : Unchanged T w v) (raw : String) :
    w.sources.importDirectory raw = v.sources.importDirectory raw := by
  unfold Sources.importDirectory
  simp only [Workbench.sources, h.layout]
  split
  · rfl
  · rename_i directory hdir
    obtain ⟨b, hb, rfl⟩ := rooted.trees.sourceDirectory? hdir
    have same := h.files.isDirectory rooted.files (leadsTo_pathOf hb)
      rooted.trees.apart.below.not_inside rooted.trees.apart.below.1
    simp only [same]
    rfl

theorem variants (h : Unchanged T w v) (exclude : List String) {raw : String} {directory : Path}
    (hd : w.sources.importDirectory raw = .ok directory) :
    w.sources.variants directory exclude = v.sources.variants directory exclude := by
  obtain ⟨b, hb, rfl⟩ := importDirectory_eq_ok rooted.trees.source rooted.trees.apart.ne_nil hd
  unfold Sources.variants
  simp only [Workbench.sources]
  rw [h.files.filesIn rooted.files (leadsTo_pathOf hb) rooted.trees.apart.below.2
    rooted.trees.apart.below.1]

theorem findSource? (h : Unchanged T w v) (relative : Path) :
    w.files.findSource? w.session.layout relative =
      v.files.findSource? v.session.layout relative := by
  unfold FileSystem.findSource?
  rw [h.layout]
  apply find?_congr
  intro file mem
  obtain ⟨place, hv, rfl, ho⟩ := rooted.trees.candidates mem
  exact (h.files.isFile rooted.files (leadsTo_pathOf hv) ho).symm

theorem finds_of_unchanged (h : Unchanged T w v) {A : Path → Prop} (finds : Finds A w) :
    Finds A v :=
  finds.transfer (rooted.importDirectory h) (fun _ _ exclude => rooted.variants h exclude)
    (rooted.findSource? h)

theorem sameView (h : Unchanged T w v) (pages : ∀ site url, w.session.docs = some site →
    (site.page w.files url).toOption = (site.page v.files url).toOption) : SameView w v :=
  ⟨h.layout.symm, h.registry.symm, h.docs.symm, rooted.importDirectory h,
    fun _ _ exclude => rooted.variants h exclude, rooted.findSource? h, pages⟩

end Workbench.Rooted

namespace Workbench.Sound

variable {S T : Place} {w v : Workbench} (sound : w.Sound S T)
include sound

theorem of_unchanged (h : Unchanged T w v) : v.Sound S T :=
  ⟨sound.toRooted.of_unchanged h, h.docs ▸ sound.docs⟩

theorem sameView (h : Unchanged T w v) : SameView w v := by
  apply sound.toRooted.sameView h
  intro site url hs
  obtain ⟨D, hD⟩ := sound.docs site hs
  exact h.pages.page sound.files (h.wellFormed sound.files) hD url

end Workbench.Sound

end SchemaLoom
