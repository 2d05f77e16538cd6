import SchemaLoom.Proofs.Affected
import SchemaLoom.Proofs.Watch.Project

/-!
# Templates that depend on a change

All that a current template reaches by asking, it reaches along the import graph. So a template from
which no edited one is reached stays current, and a template from which one is reached is compiled
together with it.
-/

namespace SchemaLoom

open SchemaLoom.Path FileSystem Compile

variable {A : Path → Prop} {S T : Place} {w v : Workbench} {p x y : Path} {changes : List Path}

/-- A template is reached along the import graph. -/
def Workbench.Depends (w : Workbench) : Path → Path → Prop :=
  Relation.ReflTransGen w.session.imports.Has

theorem Current.depends (setting : Setting A S T w) (h : Current A w p) (hp : A p)
    (reach : Reach A w p x) : w.Depends p x := by
  induction reach with
  | refl => exact .refl
  | @tail y z reach ask ih =>
    obtain ⟨hy, -⟩ := (h p .refl).good.reach setting hp reach
    rcases (h y reach).linked z ask.1 ask.2 with edge | same
    · exact ih.tail edge
    · exact (setting.same_iff hy ask.1).mp same ▸ ih

theorem Current.of_session (setting : Setting A S T w) (akin : Akin T w v)
    (files : v.files = w.files) (imports : v.session.imports = w.session.imports) (hp : A p)
    (h : Current A w p) : Current A v p := by
  apply h.carried setting akin.view akin.pretty hp
  · exact .of_reads hp fun x _ document => by rw [files]
  · intro x _
    constructor
    · intro d ask
      unfold Asked
      rwa [imports]
    · intro o text _ file
      rwa [files]

theorem Good.isFile (h : Good w p) : w.files.isFile p = true := by
  obtain ⟨s, ⟨known, -, -, read, -⟩⟩ := h
  obtain ⟨text, read, -⟩ := readTemplate_eq_ok read
  obtain ⟨place, hf⟩ := readText_eq_ok.mp read
  exact isFile_iff.mpr ⟨place, _, hf⟩

theorem Current.isFile (h : Current A w p) : w.files.isFile p = true := (h p .refl).good.isFile

/-! ## Editing -/

section Output

variable (setting : Setting A S T w) (hx : A x) (good : Good w x) {o : Place}
include setting hx good

theorem Good.output_inside (place : (w.session.layout.outputFor x).LeadsTo o) : Inside T o := by
  obtain ⟨s, ⟨known, -, -, read, -⟩⟩ := good
  obtain ⟨a, c, components, -⟩ := setting.sound.toRooted.output (setting.admits x hx) read
  rw [place, List.cons_append] at components
  have below : T ++ a <+: o := by
    apply (List.prefix_map_iff_of_injective fun _ _ => Component.name.inj).mp
    exact ⟨[c], (List.cons.inj components).2.symm⟩
  refine ⟨(List.prefix_append T a).trans below, ?_⟩
  rintro rfl
  simpa using congrArg List.length components

theorem Good.output_leads {files : FileSystem} {contents : Contents}
    (found : files.find (w.session.layout.outputFor x) = .ok (o, .file contents)) :
    (w.session.layout.outputFor x).LeadsTo o := by
  obtain ⟨s, ⟨known, -, -, read, -⟩⟩ := good
  obtain ⟨a, c, components, rfl | ⟨n, rfl⟩⟩ :=
    setting.sound.toRooted.output (setting.admits x hx) read
  · exact absurd (find_up components found) (by simp)
  · have leads : (w.session.layout.outputFor x).LeadsTo (T ++ a ++ [n]) := by
      simpa [LeadsTo] using components
    exact (find_leadsTo leads found).1 ▸ leads

end Output

/-- A template stays current when one is edited on which it does not depend. -/
theorem Current.edited (setting : Setting A S T w) {place : Place} {contents : Contents}
    (akin : Akin T w { w with files := w.files.put place (.file contents) })
    (valid : ValidPlace place) (outside : ¬ T <+: place) (hp : A p) (h : Current A w p)
    (free : ¬ w.Depends p (pathOf place)) :
    Current A { w with files := w.files.put place (.file contents) } p := by
  apply h.carried setting akin.view akin.pretty hp
  · intro x reach document
    obtain ⟨hx, -⟩ := (h p .refl).good.reach setting hp reach
    obtain ⟨q, hq, rfl, -⟩ := setting.admits x hx
    have other : q ≠ place := by
      rintro rfl
      exact free (h.depends setting hp reach)
    apply (readTemplate_congr fun s => ?_).symm
    apply readText_congr setting.sound.files akin.files (leadsTo_pathOf hq)
    intro c
    rw [entry?_put_of_ne other]
  · intro x reach
    obtain ⟨hx, -⟩ := (h p .refl).good.reach setting hp reach
    refine ⟨fun d ask => ask, fun o text leads file => ?_⟩
    have other : o ≠ place := by
      rintro rfl
      exact outside ((h x reach).good.output_inside setting hx leads).1
    rw [entry?_put_of_ne other]
    exact file

/-! ## The templates of a batch -/

section Batch

variable (setting : Setting A S T w) (queued : ∀ y ∈ changes, A y)
  (edges : w.session.imports.Joins A)
include queued edges

theorem withDependents_admitted : ∀ x ∈ w.withDependents changes, A x := by
  intro x mem
  rcases List.mem_append.mp mem with mem | mem
  · exact queued x mem
  · obtain ⟨e, edge, rfl⟩ := Dependencies.exists_importer (List.mem_filter.mp mem).1
    exact (edges e edge).1

include setting

/-- A template that depends on a change is compiled with it. -/
theorem mem_withDependents (hp : A p) (file : w.files.isFile p = true) (mem : y ∈ changes)
    (depends : w.Depends p y) : p ∈ w.withDependents changes := by
  have found : ∀ {x}, w.Depends x y →
      Dependencies.hasPath (changes ++ w.session.imports.affected changes) x = true := by
    intro x depends
    induction depends using Relation.ReflTransGen.head_induction_on with
    | refl => exact Dependencies.hasPath_of_mem (List.mem_append_left _ mem)
    | head edge _ ih => exact Dependencies.hasPath_affected edge ih
  obtain ⟨q, mem, same⟩ := Dependencies.hasPath_iff.mp (found depends)
  unfold Workbench.withDependents
  rcases List.mem_append.mp mem with mem | mem
  · obtain rfl := (setting.same_iff hp (queued q mem)).mp same
    exact List.mem_append_left _ mem
  · obtain ⟨e, edge, rfl⟩ := Dependencies.exists_importer mem
    obtain rfl := (setting.same_iff hp (edges e edge).1).mp same
    exact List.mem_append_right _ (List.mem_filter.mpr ⟨mem, file⟩)

end Batch

end SchemaLoom
