import SchemaLoom.Proofs.Session.Transparency
import SchemaLoom.Proofs.Session.Visits

/-!
# Compilation ends

A template is marked as long as it is being compiled, and a template that is marked is not compiled
again. So no template is below itself in a chain of imports, and there are only so many files: every
chain is shorter than what compiling leaves room for. A template that imports itself, through
whatever others, does not compile.
-/

namespace SchemaLoom

open Compile SchemaLoom.Path FileSystem

variable {S T : Place} {w v u : Workbench} {n m k : Nat} {p q x y : Path} {P Q : List Path}
  {s : CompiledSchema}

/-! ## Marks -/

theorem stacked_steady : Steady (fun _ => True) (fun _ => False)
    fun P w => w.session.cache.Stacked P :=
  Steady.ofCache (J := fun P c _ => c.Stacked P) (fun h unknown => h.begin_ unknown) (fun h => h)
    (fun h => h) (fun h => h.abandon)
    fun h => ⟨h.finish, h.finish.abandon_known (Cache.state_finish_self (Path.same_self _))⟩

theorem stacked_of_idle (idle : ∀ x, w.state x ≠ .cycle) : w.session.cache.Stacked [] :=
  ⟨fun x => iff_of_false (idle x) (by simp), .nil⟩

theorem Visits.stacked (idle : ∀ x, w.state x ≠ .cycle) (visits : Visits n p w P m x v) :
    v.session.cache.Stacked P := by
  have stacked := (stacked_steady.visits trivial (stacked_of_idle idle) visits).2
  rwa [List.append_nil] at stacked

theorem within_idle (idle : ∀ x, w.state x ≠ .cycle) (n : Nat) (p x : Path) :
    (reached (within n p w)).state x ≠ .cycle := by
  have stacked := stacked_steady.reached n (p := p) trivial (stacked_of_idle idle)
  intro cycle
  obtain ⟨q, mem, -⟩ := (stacked.busy x).mp cycle
  cases mem

/-! ## Files -/

/-- A file outside the output tree, at the path that an import has for it. -/
def Stands (T : Place) (w : Workbench) (x : Path) : Prop :=
  ∃ place contents, ValidPlace place ∧ x = pathOf place ∧ ¬ Inside T place ∧
    (place, .file contents) ∈ w.files.entries

/-- Below the template that is compiled first, only files are being compiled that were there at the
start. -/
theorem Workbench.Rooted.stands (rooted : w.Rooted S T) (visits : Visits n p w P m x v) :
    P = [] ∨ ∃ P', P = P' ++ [p] ∧ ∀ q ∈ P', Stands T w q := by
  rcases visits.first with ⟨rfl, -⟩ | ⟨k, d, u, P', rfl, unknown, asks, rfl, rest⟩
  · exact .inl rfl
  have steady : Steady (Stands T w) (fun _ => False) fun _ v => Unchanged T w v :=
    rooted.steady (fun _ ⟨place, _, hv, same, ho, _⟩ => ⟨place, hv, same, ho⟩) rooted.offered
  obtain ⟨document, -, relies⟩ := requests_fresh asks
  have cleared : Unchanged T w ((w.marked p).cleared (w.subject p)) :=
    ⟨rfl, rfl, rfl, rfl, .refl, id, .refl _⟩
  -- The template itself may be anywhere: up to its output nothing is written on its behalf.
  obtain ⟨hd, u', hu, rfl⟩ := (Uniform.expanded (w.subject p) document).requested
    (K := fun v => Unchanged T w v) (fun _ => steady.finds (P := [])) (fun _ _ h => h.quiet)
    (fun d hd u hu => steady.within k (P := []) hd (hu.modifySession rfl rfl rfl rfl))
    cleared relies.requests
  refine .inr ⟨P', rfl, fun q mem => ?_⟩
  obtain ⟨Q, j, z, visits⟩ := rest.of_mem mem
  exact (steady.visits (B := []) hd (hu.modifySession rfl rfl rfl rfl) visits).1

theorem Workbench.Rooted.room (rooted : w.Rooted S T) (idle : ∀ x, w.state x ≠ .cycle)
    (enough : w.files.fileCount + 2 ≤ n) (visits : Visits n p w P m x v) : 0 < m := by
  have length := visits.length
  rcases rooted.stands visits with rfl | ⟨P', rfl, stands⟩
  · simp only [List.length_nil] at length
    omega
  · have apart := (List.pairwise_append.mp (visits.stacked idle).apart).1
    have distinct : P'.Nodup := apart.imp fun ne same => by simp [same] at ne
    have few := FileSystem.length_le_fileCount distinct fun q mem => by
      obtain ⟨place, contents, -, same, -, entry⟩ := stands q mem
      exact ⟨place, contents, same, entry⟩
    simp only [List.length_append, List.length_singleton] at length
    omega

theorem Workbench.Rooted.within_eq (rooted : w.Rooted S T) (idle : ∀ x, w.state x ≠ .cycle)
    (enough : w.files.fileCount + 2 ≤ n) (p : Path) :
    within n p w = within (w.files.fileCount + 2) p w := by
  induction n, enough using Nat.le_induction with
  | base => rfl
  | succ n enough ih =>
    rw [← ih]
    exact within_succ_of_room fun P m x v visits => rooted.room idle enough visits

/-! ## How a compilation ends -/

/-- The compilation of a template ends, whatever the templates import. -/
structure Workbench.Ends (w : Workbench) (p : Path) : Prop where
  /-- No chain of imports is cut off, so the bound on its length makes no difference. -/
  room : ∀ n P m x v, w.files.fileCount + 2 ≤ n → Visits n p w P m x v → 0 < m
  unbounded : ∀ n, w.files.fileCount + 2 ≤ n → within n p w = within (w.files.fileCount + 2) p w
  /-- No template is being compiled twice, and one that is being compiled is known as such when it
  is asked for. -/
  apart : ∀ P m x v, Visits (w.files.fileCount + 2) p w P m x v →
    P.Pairwise (fun q r => q.same r = false) ∧ (v.state x = .cycle ↔ ∃ q ∈ P, q.same x = true)
  /-- No template is left marked. -/
  idle : ∀ x, (w.compile p).2.state x ≠ .cycle
  /-- A cycle is reported only when a template is asked for that is being compiled. -/
  cycle : ∀ id, (w.compile p).1 = .error (.importCycle id) →
    ∃ P m x v, Visits (w.files.fileCount + 2) p w P m x v ∧ (∃ q ∈ P, q.same x = true) ∧
      id = (v.subject x).id
  /-- What compiles does not ask for itself, through whatever others. -/
  acyclic : ∀ P m x v s u, Visits (w.files.fileCount + 2) p w P m x v → within m x v = .ok s u →
    ∀ Q k y z, Visits m x v Q k y z → ∀ q ∈ Q, q.same y = false

/-- Compiling a template ends on every tree of templates with an output tree apart from it, wherever
the template is and whatever is stored; only nothing may be being compiled. -/
theorem compile_ends (rooted : w.Rooted S T) (idle : ∀ x, w.state x ≠ .cycle) (p : Path) :
    w.Ends p where
  room n P m x v enough visits := rooted.room idle enough visits
  unbounded n enough := rooted.within_eq idle enough p
  apart P m x v visits := ⟨(visits.stacked idle).apart, (visits.stacked idle).busy x⟩
  idle x := by
    have clean := within_idle idle (w.files.fileCount + 2) p x
    rw [compile_run]
    cases run : within (w.files.fileCount + 2) p w <;> rwa [run] at clean
  cycle id failed := by
    rw [compile_run] at failed
    cases run : within (w.files.fileCount + 2) p w with
    | ok s u => simp [run] at failed
    | error e u =>
      simp only [run, Except.error.injEq] at failed
      subst failed
      obtain ⟨P, m, x, v, visits, stuck, named⟩ := within_cycle run
      have room := rooted.room idle (Nat.le_refl _) visits
      have marked := stuck.resolve_left (by omega)
      exact ⟨P, m, x, v, visits, ((visits.stacked idle).busy x).mp marked, named⟩
  acyclic P m x v s u visits run Q k y z below q mem := by
    have all := visits.trans below
    obtain ⟨t, u', run⟩ := below.ok run
    rw [Bool.eq_false_iff]
    intro same
    -- A template that is being compiled is answered with an error.
    have marked : z.state y = .cycle :=
      ((all.stacked idle).busy y).mpr ⟨q, List.mem_append_left P mem, same⟩
    obtain ⟨k', rfl⟩ := Nat.exists_eq_succ_of_ne_zero
      (Nat.pos_iff_ne_zero.mp (rooted.room idle (Nat.le_refl _) all))
    rw [within_succ_run, marked] at run
    cases run

/-- The template that includes itself is asked for while it is being compiled. -/
theorem compile_ends_threeTemplates :
    threeTemplates.Rooted ["src"] ["out"] ∧ (∀ x, threeTemplates.state x ≠ .cycle) ∧
    (match (threeTemplates.compile ⟨"/src/c.yml"⟩).1 with
      | .error (.importCycle id) => id == "c"
      | _ => false) = true ∧
    threeTemplates.Ends ⟨"/src/c.yml"⟩ := by
  have idle : ∀ x, threeTemplates.state x ≠ .cycle := fun x => by
    simp [Workbench.state, threeTemplates, Session.start]
  exact ⟨threeTemplates_sound.toRooted, idle, by decide +kernel,
    compile_ends threeTemplates_sound.toRooted idle ⟨"/src/c.yml"⟩⟩

end SchemaLoom
