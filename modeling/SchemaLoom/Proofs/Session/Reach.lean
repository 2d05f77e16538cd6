import SchemaLoom.Proofs.Reference.RoundTrip
import SchemaLoom.Proofs.Session.Upheld

/-!
# How far a session reaches

Wherever the roots of a session are, in each other or apart, a compilation writes only below the
output root and only files with the extension of outputs. What it is asked for on behalf of other
templates stands below the source root, with one exception: a reference to the root itself finds a
template beside the root that has its name.
-/

namespace SchemaLoom

open SchemaLoom.Path FileSystem Compile

variable {A : Path → Prop} {l : Layout} {S T place o : Place} {fs fs' fs'' : FileSystem}
  {w v : Workbench} {p : Path} {paths : List Path} {s : CompiledSchema}

/-! ## Places of outputs -/

/-- Strictly below the output root and with the extension of outputs. -/
def OutputPlace (T place : Place) : Prop :=
  Inside T place ∧ (pathOf place).extension? = some outputExtension

instance (T place : Place) : Decidable (OutputPlace T place) :=
  inferInstanceAs (Decidable (_ ∧ _))

/-- The same files with the same contents, except at the places of outputs. -/
def FileSystem.OutputsOnly (T : Place) (fs fs' : FileSystem) : Prop :=
  ∀ place, ¬ OutputPlace T place → ∀ contents,
    fs'.entry? place = some (.file contents) ↔ fs.entry? place = some (.file contents)

namespace FileSystem.OutputsOnly

theorem refl (fs : FileSystem) : OutputsOnly T fs fs := fun _ _ _ => Iff.rfl

theorem trans (h : OutputsOnly T fs fs') (h' : OutputsOnly T fs' fs'') : OutputsOnly T fs fs'' :=
  fun place other c => (h' place other c).trans (h place other c)

theorem of_removeFile (removed : fs.removeFile p = .ok fs')
    (output : ∀ o c, fs.find p = .ok (o, .file c) → OutputPlace T o) : OutputsOnly T fs fs' := by
  obtain ⟨o, contents, found, rfl⟩ := removeFile_eq_ok.mp removed
  intro place other c
  rw [entry?_without_self]
  rintro rfl
  exact other (output place contents found)

end FileSystem.OutputsOnly

/-- The roots of a layout are absolute and without `..`, and the source root is no template by its
name. -/
structure Layout.Roots (l : Layout) (S T : Place) : Prop where
  source : l.source.LeadsTo S
  below : S ≠ []
  plain : l.source.isTemplate = false
  output : l.output.LeadsTo T

namespace Layout.Roots

variable (roots : l.Roots S T)
include roots

theorem isTemplate_eq_false (h : p.LeadsTo S) : p.isTemplate = false := by
  rw [← roots.plain]
  apply isTemplate_congr
  unfold Path.fileName?
  rw [h, roots.source]

theorem inside (h : p.LeadsTo place) (template : p.isTemplate = true) (within : S <+: place) :
    Inside S place := by
  refine ⟨within, ?_⟩
  rintro rfl
  simp [roots.isTemplate_eq_false h] at template

theorem not_outputPlace : ¬ OutputPlace T S := by
  rintro ⟨-, extension⟩
  have template : (pathOf S).isTemplate = true := by
    unfold Path.isTemplate
    rw [extension]
    decide
  rw [roots.isTemplate_eq_false (leadsTo_pathOf roots.source.valid)] at template
  simp at template

/-- The output of everything but the root stands in the output tree, and its path ends in a name
with the extension of outputs, or in `..`. -/
theorem outputFor (h : p.LeadsTo place) (top : place ≠ []) (ne : place ≠ S) :
    ∃ a stem c, (l.outputFor p).components = .root :: (T ++ a).map .name ++ [c] ∧ stem ≠ [] ∧
      EndsOutput stem c := by
  have solid : ∀ {a s}, p.LeadsTo (a ++ [s]) → (cutName s.toList).1 ≠ [] := fun leads =>
    cutName_ne_nil fun empty => leads.valid.last.1 (toList_eq_iff.mp empty)
  by_cases within : S <+: place
  · obtain ⟨b, rfl⟩ := within
    rcases List.eq_nil_or_concat' b with rfl | ⟨a, s, rfl⟩
    · exact absurd (List.append_nil S) ne
    · rw [← List.append_assoc] at h
      obtain ⟨c, whole, ends⟩ := outputFor_inside roots.source roots.output h
      exact ⟨a, _, c, whole, solid h, ends⟩
  · rcases List.eq_nil_or_concat' place with rfl | ⟨a, s, rfl⟩
    · exact absurd rfl top
    · obtain ⟨c, whole, ends⟩ := outputFor_outside roots.source roots.output h within
      exact ⟨[], _, c, by simpa using whole, solid h, ends⟩

theorem outputPlace (h : p.LeadsTo place) (top : place ≠ []) (ne : place ≠ S) {contents : Contents}
    (found : fs.find (l.outputFor p) = .ok (o, .file contents)) : OutputPlace T o := by
  obtain ⟨a, stem, c, whole, solid, ⟨rfl, -⟩ | rfl⟩ := roots.outputFor h top ne
  · simpa using find_up whole found
  · have leads : (l.outputFor p).LeadsTo
        (T ++ a ++ [String.ofList (stem ++ '.' :: outputExtension.toList)]) := by
      simpa [LeadsTo] using whole
    obtain ⟨rfl, -⟩ := find_leadsTo leads found
    refine ⟨⟨?_, by simp⟩, ?_⟩
    · rw [List.append_assoc]
      exact List.prefix_append T _
    · unfold Path.extension?
      rw [(leadsTo_pathOf leads.valid).fileName?, Option.bind_some, String.toList_ofList,
        cutName_extended solid (by decide), Option.map_some, String.ofList_toList]

end Layout.Roots

/-! ## What is asked for -/

/-- A template strictly below the source root. -/
def TemplateBelow (S : Place) (p : Path) : Prop :=
  p.isTemplate = true ∧ ∃ place, p.LeadsTo place ∧ Inside S place

/-- A template beside the source root, with the root's name for a stem. -/
def TemplateBeside (S : Place) (p : Path) : Prop :=
  ∃ a s, S = a ++ [s] ∧ ∃ e ∈ templateExtensions, p.LeadsTo (a ++ [nameWith s e])

/-- The path is that of the tree's root, followed by names only. -/
def InTree (S : Place) (p : Path) : Prop := ∃ b, ValidPlace (S ++ b) ∧ p = pathOf (S ++ b)

/-- The path names the source root, which is no template by its name. -/
def Layout.NamesRoot (l : Layout) (relative : Path) : Prop :=
  (l.source.join relative).normalize.same l.source = true ∧ l.source.isTemplate = false

instance (l : Layout) (relative : Path) : Decidable (l.NamesRoot relative) :=
  inferInstanceAs (Decidable (_ ∧ _))

/-- An extension is put to what a path names after that was found to be in the tree. So the
templates that are tried for a path to the root are beside it. -/
theorem Layout.candidate_cases (source : l.source.LeadsTo S) (below : S ≠ []) {relative : Path}
    (mem : p ∈ l.candidates relative) :
    p.isTemplate = true ∧ (InTree S p ∧ ¬ l.NamesRoot relative ∨
      TemplateBeside S p ∧ l.NamesRoot relative) := by
  obtain ⟨b, valid, named, found⟩ := mem_candidates source below mem
  have leads := leadsTo_pathOf valid
  have atRoot : (l.source.join relative).normalize.same l.source = true ↔ b = [] := by
    rw [named, leads.same_iff source, List.append_right_eq_self]
  rcases found with ⟨template, rfl⟩ | ⟨plain, e, known, a, s, last, rfl⟩
  · refine ⟨template, .inl ⟨⟨b, valid, rfl⟩, ?_⟩⟩
    rintro ⟨root, rootPlain⟩
    obtain rfl := atRoot.mp root
    rw [List.append_nil] at leads template
    have same : (pathOf S).isTemplate = l.source.isTemplate := by
      apply isTemplate_congr
      rw [Path.fileName?, Path.fileName?, leads, source]
    simp [← same, template] at rootPlain
  · rw [last] at valid
    have beside := leadsTo_pathOf
      (valid.left.append (.singleton (isName_nameWith known valid.last.2.1)))
    refine ⟨(isTemplate_iff beside.fileName?).mpr ⟨e, known, s, valid.last.1, rfl⟩, ?_⟩
    rcases List.eq_nil_or_concat' b with rfl | ⟨c, t, rfl⟩
    · have rootPlain : l.source.isTemplate = false := by
        rw [← plain]
        apply isTemplate_congr
        rw [Path.fileName?, Path.fileName?, leads, source, List.append_nil]
      refine .inr ⟨⟨a, s, ?_, e, known, beside⟩, atRoot.mpr rfl, rootPlain⟩
      rw [← last, List.append_nil]
    · rw [← List.append_assoc] at last
      obtain ⟨rfl, -⟩ := List.append_inj' last rfl
      rw [List.append_assoc] at beside ⊢
      refine .inl ⟨⟨_, beside.valid, rfl⟩, ?_⟩
      rintro ⟨root, -⟩
      simpa using atRoot.mp root

/-- Templates may be compiled whose paths lead to places, and all that an import can name. -/
structure Scope (A : Path → Prop) (S : Place) : Prop where
  leads : ∀ {p}, A p → ∃ place, p.LeadsTo place
  below : ∀ {p}, TemplateBelow S p → A p
  beside : ∀ {p}, TemplateBeside S p → A p

/-- What an import can name is below the source root or has the root's name. -/
theorem Layout.Roots.finds (roots : w.session.layout.Roots S T) (files : WellFormed w.files) :
    Finds (fun p => TemplateBelow S p ∨ TemplateBeside S p) w := by
  constructor
  · intro raw directory exclude hd d mem
    obtain ⟨template, b, name, -, valid, rfl, -⟩ :=
      mem_variants roots.source roots.below files hd mem
    refine .inl ⟨template, _, leadsTo_pathOf valid,
      roots.inside (leadsTo_pathOf valid) template ?_⟩
    rw [List.append_assoc]
    exact List.prefix_append S _
  · intro relative d hd
    obtain ⟨template, ⟨⟨b, valid, rfl⟩, -⟩ | ⟨beside, -⟩⟩ :=
      Layout.candidate_cases roots.source roots.below (List.mem_of_find?_eq_some hd)
    · exact .inl ⟨template, _, leadsTo_pathOf valid,
        roots.inside (leadsTo_pathOf valid) template (List.prefix_append S b)⟩
    · exact .inr beside

/-! ## Compiling -/

/-- A session with a layout on well-formed files, in which only admitted templates are imported, and
only by such ones. -/
structure Workbench.Orderly (A : Path → Prop) (l : Layout) (w : Workbench) : Prop where
  layout : w.session.layout = l
  files : WellFormed w.files
  edges : w.session.imports.Joins A

theorem Workbench.Orderly.congr (h : w.Orderly A l) (layout : v.session.layout = w.session.layout)
    (files : v.files = w.files) (imports : v.session.imports = w.session.imports) :
    v.Orderly A l :=
  ⟨layout.trans h.layout, files ▸ h.files, imports ▸ h.edges⟩

theorem Workbench.Orderly.quiet (h : w.Orderly A l) (hq : Quiet w v) : v.Orderly A l := by
  obtain ⟨files, diagnostics, session⟩ := hq
  exact h.congr (by rw [session]) files (by rw [session])

theorem Compile.Wrote.outputsOnly {r : EStateM.Result BuildError Workbench PUnit}
    (h : Wrote w s r) (absolute : (w.outputOf s).isAbsolute = true)
    (output : ∀ {fs o c}, FileSystem.find fs (w.outputOf s) = .ok (o, .file c) → OutputPlace T o) :
    OutputsOnly T w.files (reached r).files :=
  fun _ other => h.file absolute fun _ found => other (output found)

section

variable (roots : l.Roots S T) (scope : Scope A S)
include roots scope

/-- Storing and writing a document that was read changes outputs only. -/
theorem keep_orderly (h : w.Orderly A l) (hs : A s.source) {place : Place} {contents : Contents}
    (read : fs.find s.source = .ok (place, .file contents)) (ne : place ≠ S) :
    (reached (keep s w)).Orderly A l ∧ OutputsOnly T w.files (reached (keep s w)).files := by
  have absolute : w.session.layout.output.isAbsolute = true := h.layout ▸ roots.output.isAbsolute
  constructor
  · obtain ⟨diagnostics, written, session⟩ := keep_session s w
    exact ⟨by rw [session]; exact h.layout, wellFormed_keep absolute h.files,
      by rw [session]; exact h.edges⟩
  · rw [keep_run]
    split
    · refine (write_run s (w.finished s)).outputsOnly (Layout.outputFor_isAbsolute absolute _) ?_
      intro fs o c found
      obtain ⟨q, leads⟩ := scope.leads hs
      obtain ⟨rfl, there⟩ := find_leadsTo leads read
      have top : place ≠ [] := by
        rintro rfl
        simp at there
      have roots' : (w.finished s).session.layout.Roots S T := h.layout ▸ roots
      exact roots'.outputPlace leads top ne found
    · exact .refl w.files

/-- What every step of a compilation keeps, as long as the source root is no file. -/
theorem orderly_steady (root : ∀ c, fs.entry? S ≠ some (.file c)) :
    Steady A (fun _ => False) fun _ w => w.Orderly A l ∧ OutputsOnly T fs w.files where
  finds h := by
    have roots' := h.1.layout ▸ roots
    exact (roots'.finds h.1.files).mono fun _ found => found.elim scope.below scope.beside
  quiet h hq := ⟨h.1.quiet hq, hq.1 ▸ h.2⟩
  marked _ h _ := ⟨h.1.congr rfl rfl rfl, h.2⟩
  forgotten _ h :=
    ⟨⟨h.1.layout, h.1.files, h.1.edges.subset (Dependencies.forget_subset _ _)⟩, h.2⟩
  linked hp hd h := ⟨⟨h.1.layout, h.1.files, h.1.edges.record hp hd⟩, h.2⟩
  unmarked _ _ h := .inr ⟨h.1.congr rfl rfl rfl, h.2⟩
  keep := by
    rintro P w v p schema document hp hw read hv rfl -
    obtain ⟨text, read, -⟩ := readTemplate_eq_ok read
    obtain ⟨place, found⟩ := readText_eq_ok.mp read
    have ne : place ≠ S := by
      rintro rfl
      have file := (find_eq_ok.mp found).2
      exact root _ ((hw.2 place roots.not_outputPlace _).mp file)
    obtain ⟨orderly, outputs⟩ := keep_orderly roots scope hv.1 hp found ne
    have kept := And.intro orderly (hv.2.trans outputs)
    constructor
    · intro u hu
      rwa [hu] at kept
    · intro e u hu
      rw [hu] at kept
      exact .inr ⟨kept.1.congr rfl rfl rfl, kept.2⟩

variable (h : w.Orderly A l) (root : ∀ c, w.files.entry? S ≠ some (.file c))
include h root

theorem compile_orderly (hp : A p) :
    (w.compile p).2.Orderly A l ∧ OutputsOnly T w.files (w.compile p).2.files :=
  (orderly_steady roots scope root).compile hp ⟨h, .refl w.files⟩

theorem compileBatch_orderly (admitted : ∀ p ∈ paths, A p) :
    (w.compileBatch paths).2.Orderly A l ∧
      OutputsOnly T w.files (w.compileBatch paths).2.files :=
  (orderly_steady roots scope root).compileAll (w := w.newGeneration)
    ⟨h.congr rfl rfl rfl, .refl w.files⟩ admitted fun _ _ _ => id

end

end SchemaLoom
