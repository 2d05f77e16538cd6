import SchemaLoom.Proofs.Reference.Integrity
import SchemaLoom.Proofs.Session.Upheld
import SchemaLoom.Proofs.Session.Visits
import SchemaLoom.Proofs.Watch.Reach

/-!
# What imports and references can name

A path is resolved before it is compared with the source root, so however an import or a reference
is written, the directory that it names is the root or stands below it. So do the templates that
are found, with one exception: a path that resolves to the root itself finds a template beside the
root that has its name.
-/

namespace SchemaLoom

open SchemaLoom.Path FileSystem Compile Reference

variable {l : Layout} {S : Place} {p q x d : Path} {w v : Workbench} {P : List Path} {n m : Nat}

/-! ## Names -/

theorem TemplateBeside.not_inTree (h : TemplateBeside S p) : ¬ InTree S p := by
  obtain ⟨a, s, rfl, e, -, leads⟩ := h
  rintro ⟨b, valid, rfl⟩
  have same := (leadsTo_pathOf valid).unique leads
  rw [List.append_assoc] at same
  have names := List.append_cancel_left same
  rw [List.singleton_append, List.cons.injEq] at names
  -- A name is shorter than the same name with an extension.
  have lengths := congrArg (fun name : String => name.toList.length) names.1
  simp only [length_nameWith] at lengths
  omega

/-- What is found for a path is a template, and in the tree unless the path names the root. -/
structure Layout.FoundFor (l : Layout) (S : Place) (files : FileSystem) (relative file : Path) :
    Prop where
  isFile : files.isFile file = true
  template : file.isTemplate = true
  inTree_iff : InTree S file ↔ ¬ l.NamesRoot relative
  beside : l.NamesRoot relative → TemplateBeside S file

/-- A template in the tree, or beside its root. -/
structure Importable (S : Place) (p : Path) : Prop where
  template : p.isTemplate = true
  near : InTree S p ∨ TemplateBeside S p

section

variable (source : l.source.LeadsTo S) (below : S ≠ [])
include source below

theorem Layout.sourceDirectory?_inTree {relative : String} {directory : Path}
    (named : l.sourceDirectory? relative = some directory) : InTree S directory := by
  obtain ⟨b, valid, rfl⟩ := sourceDirectory?_eq_some source below named
  exact ⟨b, valid, rfl⟩

theorem Layout.foundFor_of_findSource? {files : FileSystem} {relative file : Path}
    (found : files.findSource? l relative = some file) : l.FoundFor S files relative file := by
  obtain ⟨template, ⟨within, other⟩ | ⟨beside, root⟩⟩ :=
    candidate_cases source below (List.mem_of_find?_eq_some found)
  · exact ⟨List.find?_some found, template, iff_of_true within other, fun root => absurd root other⟩
  · exact ⟨List.find?_some found, template, iff_of_false beside.not_inTree (not_not_intro root),
      fun _ => beside⟩

theorem Layout.importable_of_findSource? {files : FileSystem} {relative file : Path}
    (found : files.findSource? l relative = some file) : Importable S file := by
  have foundFor := foundFor_of_findSource? source below found
  refine ⟨foundFor.template, ?_⟩
  by_cases root : l.NamesRoot relative
  · exact .inr (foundFor.beside root)
  · exact .inl (foundFor.inTree_iff.mpr root)

end

/-! ## Imports -/

/-- A session with a layout on well-formed files. -/
def Workbench.Housed (l : Layout) (w : Workbench) : Prop :=
  w.session.layout = l ∧ WellFormed w.files

namespace Workbench.Housed

theorem steady (absolute : l.output.isAbsolute = true) :
    Steady (fun _ => True) (fun _ => False) fun _ w => w.Housed l := by
  refine .ofFiles (fun _ => finds_any _) ?_ (fun _ _ h => h) ?_
  · rintro w v ⟨layout, wf⟩ ⟨files, diagnostics, session⟩
    exact ⟨by rw [session]; exact layout, files ▸ wf⟩
  · rintro w v schema document - - - ⟨layout, wf⟩ -
    refine ⟨?_, wellFormed_keep (layout ▸ absolute) wf⟩
    obtain ⟨diagnostics, written, session⟩ := keep_session schema v
    rw [session]
    exact layout

section

variable (source : l.source.LeadsTo S) (below : S ≠ [])
include source below

theorem finds (h : w.Housed l) : Finds (Importable S) w := by
  obtain ⟨rfl, wf⟩ := h
  constructor
  · intro raw directory exclude hd d mem
    obtain ⟨template, b, name, -, valid, rfl, -⟩ := mem_variants source below wf hd mem
    refine ⟨template, .inl ⟨b ++ [name], ?_⟩⟩
    rw [← List.append_assoc]
    exact ⟨valid, rfl⟩
  · exact fun relative d found => Layout.importable_of_findSource? source below found

theorem importable (h : w.Housed l) (absolute : l.output.isAbsolute = true)
    (visits : Visits n p w (q :: P) m x v) : Importable S x :=
  (steady absolute).asked (B := []) (fun h => h.finds source below) (fun _ _ => trivial) trivial h
    visits

end

end Workbench.Housed

/-! ## Everything that is named -/

/-- What imports and references reach in a layout. -/
structure Layout.Confines (l : Layout) (S : Place) : Prop where
  directory : ∀ {relative directory}, l.sourceDirectory? relative = some directory →
    InTree S directory
  found : ∀ {files relative file}, FileSystem.findSource? files l relative = some file →
    l.FoundFor S files relative file
  /-- Apart from a fragment alone, what is written for a reference is the path to the output of a
  template that its path finds. -/
  reference : ∀ {r : Resolver} {ref text}, r.layout = l → r.replacement? ref = some text →
    (∃ fragment, ref.splitFragment = ([], some fragment)) ∧ text = ref.path ∨
      ∃ path fragment target, ref.splitFragment = (path, fragment) ∧
        l.FoundFor S r.files (relativePath ref.nameSpace path) target ∧
        text = (l.outputReference r.source target).toList ++ Resolver.fragmentText fragment
  /-- What is compiled on behalf of another template. -/
  imported : ∀ {n p w q P m x v}, w.session.layout = l → l.output.isAbsolute = true →
    WellFormed w.files → Visits n p w (q :: P) m x v → Importable S x

/-- Directories that are named are in the source tree, and so are the templates that are found,
unless the path names the source root. -/
theorem Layout.confines (source : l.source.LeadsTo S) (below : S ≠ []) : l.Confines S where
  directory := sourceDirectory?_inTree source below
  found := foundFor_of_findSource? source below
  reference := by
    rintro r ref text rfl replaced
    obtain ⟨path, fragment, split⟩ : ∃ path fragment, ref.splitFragment = (path, fragment) :=
      ⟨_, _, rfl⟩
    by_cases named : path = [] → fragment = none
    · rw [Resolver.replacement?_of_path split named] at replaced
      obtain ⟨target, found, rfl⟩ := Option.map_eq_some_iff.mp replaced
      exact .inr ⟨path, fragment, target, split, foundFor_of_findSource? source below found, rfl⟩
    · rw [Classical.not_imp] at named
      obtain ⟨rfl, given⟩ := named
      obtain ⟨raw, rfl⟩ := Option.ne_none_iff_exists'.mp given
      rw [Resolver.replacement?_of_fragment split] at replaced
      exact .inl ⟨⟨raw, split⟩, (Option.some.inj replaced).symm⟩
  imported layout absolute wf visits :=
    Workbench.Housed.importable source below ⟨layout, wf⟩ absolute visits

/-- A path out of the root and in again stays in the tree. A path to the root finds the template
beside it. -/
theorem Layout.confines_besideRoot :
    (∃ directory, plainConfiguration.layout.sourceDirectory? "./t/../../src/t" = some directory ∧
      InTree ["src"] directory) ∧
    (∃ file, (plainSession besideRoot).files.findSource? plainConfiguration.layout
        ⟨"../src/./b"⟩ = some file ∧ InTree ["src"] file) ∧
    ∃ file, (plainSession besideRoot).files.findSource? plainConfiguration.layout
      ⟨"t/.."⟩ = some file ∧ TemplateBeside ["src"] file ∧ ¬ InTree ["src"] file := by
  have confines : plainConfiguration.layout.Confines ["src"] :=
    Layout.confines (by decide) (by decide)
  have directory : plainConfiguration.layout.sourceDirectory? "./t/../../src/t" =
      some ⟨"/src/t"⟩ := by decide +kernel
  have within : (plainSession besideRoot).files.findSource? plainConfiguration.layout
      ⟨"../src/./b"⟩ = some ⟨"/src/b.yml"⟩ := by decide +kernel
  have beside : (plainSession besideRoot).files.findSource? plainConfiguration.layout
      ⟨"t/.."⟩ = some ⟨"/src.yml"⟩ := by decide +kernel
  have notRoot : ¬ plainConfiguration.layout.NamesRoot ⟨"../src/./b"⟩ := by decide +kernel
  have root : plainConfiguration.layout.NamesRoot ⟨"t/.."⟩ := by decide +kernel
  exact ⟨⟨_, directory, confines.directory directory⟩,
    ⟨_, within, (confines.found within).inTree_iff.mpr notRoot⟩, _, beside,
    (confines.found beside).beside root, fun inside =>
      (confines.found beside).inTree_iff.mp inside root⟩

end SchemaLoom
