import Mathlib.Data.List.Perm.Subperm
import SchemaLoom.Proofs.Session.Memo
import SchemaLoom.Session.Batch

/-!
# Generations

A generation starts with nothing stored. Every template compiled in it yields the document that it
would yield on its own, or fails as it would on its own. In the end those templates are stored that
compile and are reached from the ones compiled.
-/

namespace SchemaLoom

open Compile FileSystem

variable {A : Path → Prop} {S T : Place} {base w v : Workbench} {p x : Path} {s : CompiledSchema}

/-! ## One template -/

theorem FileSystem.length_le_fileCount {fs : FileSystem} {paths : List Path}
    (distinct : paths.Nodup)
    (files : ∀ x ∈ paths, ∃ place contents, x = pathOf place ∧
      (place, .file contents) ∈ fs.entries) :
    paths.length ≤ fs.fileCount := by
  unfold FileSystem.fileCount
  rw [← List.length_map fun e : Place × Entry => pathOf e.1]
  apply (distinct.subperm _).length_le
  intro x mem
  obtain ⟨place, contents, rfl, entry⟩ := files x mem
  exact List.mem_map.mpr ⟨_, List.mem_filter.mpr ⟨entry, rfl⟩, rfl⟩

theorem length_le_fileCount (setting : Setting A S T base) (h : Unchanged T base w)
    {paths : List Path} (distinct : paths.Nodup)
    (read : ∀ x ∈ paths, A x ∧ ∃ document, base.files.readTemplate x = .ok document) :
    paths.length ≤ w.files.fileCount := by
  refine FileSystem.length_le_fileCount distinct fun x mem => ?_
  obtain ⟨hx, document, hread⟩ := read x mem
  have readable := (setting.sound.toRooted.readTemplate h (setting.admits x hx)).mpr hread
  obtain ⟨place, hv, rfl, -⟩ := setting.admits x hx
  obtain ⟨text, hread, -⟩ := readTemplate_eq_ok readable
  obtain ⟨q, hf⟩ := readText_eq_ok.mp hread
  obtain ⟨rfl, he⟩ := find_leadsTo (leadsTo_pathOf hv) hf
  have ne : q ≠ [] := by
    rintro rfl
    simp at he
  exact ⟨q, _, rfl, mem_entries he ne⟩

theorem compile_run (w : Workbench) (p : Path) :
    w.compile p = match within (w.files.fileCount + 2) p w with
      | .ok s v => (.ok s, v)
      | .error e v => (.error e, v) := rfl

theorem within_of_known (known : w.state p = .known s) (n : Nat) :
    within (n + 1) p w = .ok s w := by
  rw [within_succ_run, known]

theorem compile_of_known (known : w.state p = .known s) : w.compile p = (.ok s, w) := by
  rw [compile_run, within_of_known known]

theorem compile_reached (w : Workbench) (p : Path) :
    (w.compile p).2 = reached (within (w.files.fileCount + 2) p w) := by
  rw [compile_run]
  cases within (w.files.fileCount + 2) p w <;> rfl

/-- What every step keeps is kept by a whole compilation. -/
theorem Compile.Steady.compile {K : List Path → Workbench → Prop}
    (steady : Steady A (fun _ => False) K) (hp : A p) (h : K [] w) : K [] (w.compile p).2 := by
  rw [compile_reached]
  exact steady.reached _ hp h

theorem compile_outcome (setting : Setting A S T base) (h : Settled A T base [] w) (hp : A p) :
    Outcome A T base [] w p (within (w.files.fileCount + 2) p w) :=
  within_outcome setting
    (fun _ distinct read => length_le_fileCount setting h.unchanged distinct read)
    _ hp h .nil (by simp) (by simp) (.nil base p)

theorem Settled.compile (setting : Setting A S T base) (h : Settled A T base [] w) (hp : A p) :
    Settled A T base [] (w.compile p).2 := by
  have outcome := compile_outcome setting h hp
  rw [compile_run]
  generalize within (w.files.fileCount + 2) p w = r at outcome ⊢
  cases outcome with
  | ok _ _ settled _ => exact settled
  | error _ settled _ _ _ => exact settled
  | fault _ settled => exact settled

/-- An error that is not one of writing is given only for a template that does not compile. -/
theorem Settled.bad_of_error {e : BuildError} (setting : Setting A S T base)
    (h : Settled A T base [] w) (hp : A p) (failed : (w.compile p).1 = .error e)
    (writing : ¬ base.session.layout.OutputFault e) : ¬ Good base p := by
  have outcome := compile_outcome setting h hp
  rw [compile_run] at failed
  generalize within (w.files.fileCount + 2) p w = r at outcome failed
  cases outcome with
  | ok => simp at failed
  | error bad => exact bad
  | fault fault =>
    obtain rfl : _ = e := by simpa using failed
    exact absurd fault writing

/-- Compiling a template yields the document it compiles to, and fails if there is none. -/
theorem compile_eq_ok (setting : Setting A S T base) (h : Settled A T base [] w) (hp : A p)
    (faultless : base.session.layout.Faultless (w.compile p).1) :
    (w.compile p).1 = .ok s ↔ Compiles base (fun _ => False) p s := by
  rw [compile_run] at faultless ⊢
  have outcome := compile_outcome setting h hp
  revert faultless
  generalize within (w.files.fileCount + 2) p w = r at outcome ⊢
  intro faultless
  cases outcome with
  | @ok t v compiles now settled stored =>
    constructor
    · intro he
      exact Except.ok.inj he ▸ compiles
    · intro compiles'
      rw [compiles.unique compiles']
  | error bad settled stored stuck here =>
    refine iff_of_false (by simp) fun compiles => bad compiles.good
  | fault fault _ => exact absurd fault (faultless _ rfl)

/-! ## All templates of a generation -/

theorem settled_newGeneration (base : Workbench) :
    Settled A T base.newGeneration [] base.newGeneration where
  unchanged := .refl _
  distinct := Cache.distinct_empty
  progress x _ := by simp [Workbench.state, Workbench.newGeneration, Workbench.modifySession]
  good x s _ hs := by
    simp [Workbench.state, Workbench.newGeneration, Workbench.modifySession] at hs
  edges x _ hk := by
    obtain ⟨s, hs⟩ := hk
    simp [Workbench.state, Workbench.newGeneration, Workbench.modifySession] at hs
  closed x _ hk := by
    obtain ⟨s, hs⟩ := hk
    simp [Workbench.state, Workbench.newGeneration, Workbench.modifySession] at hs

theorem Workbench.Sound.newGeneration (sound : base.Sound S T) : base.newGeneration.Sound S T :=
  ⟨⟨sound.trees, sound.files, sound.root⟩, sound.docs⟩

theorem Workbench.Sound.setting (sound : base.Sound S T) :
    Setting (Admits T) S T base.newGeneration :=
  ⟨sound.newGeneration, fun _ => id, sound.newGeneration.toRooted.finds⟩

/-- The workbenches of a generation in which templates are compiled in any order. -/
inductive Generation (T : Place) (base : Workbench) : Workbench → Prop where
  | start : Generation T base base.newGeneration
  | compile {w : Workbench} {p : Path} : Generation T base w → Admits T p →
      Generation T base (w.compile p).2

theorem Generation.settled (sound : base.Sound S T) (h : Generation T base w) :
    Settled (Admits T) T base.newGeneration [] w := by
  induction h with
  | start => exact settled_newGeneration base
  | compile _ hp ih => exact ih.compile sound.setting hp

/-- What is known of a generation in which templates were compiled one after the other. -/
structure Compiled (A : Path → Prop) (T : Place) (base : Workbench) (paths : List Path)
    (w v : Workbench) : Prop where
  settled : Settled A T base [] v
  stored : ∀ x, A x → v.Knows x → w.Knows x ∨ ∃ p ∈ paths, Reach A base p x
  stuck : ∃ F, Stuck A base [] v F ∧ ∀ p ∈ paths, v.Knows p ∨ F p

/-- A template that compiled is stored. -/
theorem within_known {length : Nat} (h : within length p w = .ok s v) : v.state p = .known s := by
  cases length with
  | zero => simp [within_zero_run] at h
  | succ length =>
    rw [within_succ_run] at h
    cases hs : w.state p with
    | known t =>
      simp only [hs, EStateM.Result.ok.injEq] at h
      obtain ⟨rfl, rfl⟩ := h
      exact hs
    | cycle => simp [hs] at h
    | unknown =>
      simp only [hs] at h
      split at h
      · rename_i t u run
        obtain ⟨rfl, rfl⟩ : t = s ∧ u = v := by simpa using h
        obtain ⟨document, before, -, expands, kept⟩ := fresh_eq_ok run
        have source : t.source = p := expanded_source expands
        obtain ⟨diagnostics, written, session⟩ := keep_session t before
        rw [kept, reached_ok] at session
        simp only [Workbench.state, session]
        exact source ▸ Cache.state_finish_self (Path.same_self _)
      · simp at h

theorem compile_known (h : (w.compile p).1 = .ok s) : (w.compile p).2.state p = .known s := by
  rw [compile_run] at h ⊢
  cases hr : within (w.files.fileCount + 2) p w with
  | error e v => simp [hr] at h
  | ok t v =>
    obtain rfl : t = s := by simpa [hr] using h
    exact within_known hr

theorem knows_compile (h : w.Knows x) (p : Path) : (w.compile p).2.Knows x := by
  obtain ⟨s, hs⟩ := h
  have busy : w.state x ≠ .unknown := by simp [hs]
  rw [compile_reached]
  exact ⟨s, (within_frozen (w.files.fileCount + 2) p busy).1.trans hs⟩

/-- The templates of a batch that failed. -/
def BatchReport.failing (r : BatchReport) : List Path := r.failures.map Prod.fst

theorem BatchReport.mem_failing {r : BatchReport} : p ∈ r.failing ↔ ∃ e, (p, e) ∈ r.failures := by
  simp [failing]

/-- The workbench from which the templates behind a compiled one go on. -/
def Workbench.next (w : Workbench) (p : Path) : Workbench :=
  match w.compile p with
  | (.ok _, v) => v
  | (.error e, v) =>
    let id := v.session.layout.schemaId p
    let message := e.message
    v.say "error" s!"{id}: {message}"

theorem quiet_next (w : Workbench) (p : Path) : Quiet (w.compile p).2 (w.next p) := by
  unfold Workbench.next
  rcases w.compile p with ⟨e | s, v⟩
  · exact quiet_say _ _ _
  · exact .refl v

theorem knows_quiet (h : Quiet w v) : v.Knows x ↔ w.Knows x := by
  simp [Workbench.Knows, state_quiet h]

theorem compileAll_cons (w : Workbench) (p : Path) (paths : List Path) :
    w.compileAll (p :: paths) =
      ((match (w.compile p).1 with
        | .ok _ => []
        | .error e => [(p, e)]) ++ ((w.next p).compileAll paths).1,
        ((w.next p).compileAll paths).2) := by
  rw [Workbench.compileAll, Workbench.next]
  rcases w.compile p with ⟨e | s, v⟩ <;> rfl

theorem knows_compileAll {paths : List Path} (h : w.Knows x) : (w.compileAll paths).2.Knows x := by
  induction paths generalizing w with
  | nil => exact h
  | cons p paths ih =>
    rw [compileAll_cons]
    exact ih ((knows_quiet (quiet_next w p)).mpr (knows_compile h p))

/-- The templates of a list, each with the workbench that it is compiled on. -/
def Workbench.turns : Workbench → List Path → List (Path × Workbench)
  | _, [] => []
  | w, p :: paths => (p, w) :: (w.next p).turns paths

theorem map_turns (w : Workbench) (paths : List Path) : (w.turns paths).map Prod.fst = paths := by
  induction paths generalizing w with
  | nil => rfl
  | cons p paths ih => simp [Workbench.turns, ih]

theorem mem_of_turn {paths : List Path} {turn : Path × Workbench} (mem : turn ∈ w.turns paths) :
    turn.1 ∈ paths :=
  map_turns w paths ▸ List.mem_map_of_mem mem

/-- What every step of a compilation keeps is kept by a batch, if no error is excused. -/
theorem Compile.Guided.compileAll {R : Nat → Path → Workbench → Prop}
    {excused : BuildError → Prop} {K : List Path → Workbench → Prop}
    (guided : Guided R A excused K) (follows : Follows R) {paths : List Path}
    (asked : ∀ turn ∈ w.turns paths, R (turn.2.files.fileCount + 2) turn.1 turn.2)
    (h : K [] w) (admitted : ∀ p ∈ paths, A p)
    (faultless : ∀ p e, (p, e) ∈ (w.compileAll paths).1 → ¬ excused e) :
    K [] (w.compileAll paths).2 := by
  induction paths generalizing w with
  | nil => exact h
  | cons p paths ih =>
    rw [compileAll_cons] at faultless ⊢
    rw [Workbench.turns, List.forall_mem_cons] at asked
    refine ih asked.2 ?_ (fun q mem => admitted q (List.mem_cons_of_mem p mem)) fun q e mem =>
      faultless q e (List.mem_append_right _ mem)
    have single : ∀ e, (w.compile p).1 = .error e → ¬ excused e := fun e he =>
      faultless p e (List.mem_append_left _ (by simp [he]))
    refine guided.quiet ?_ (quiet_next w p)
    have kept := guided.within follows _ asked.1 (admitted p List.mem_cons_self) h
    rw [compile_run] at single ⊢
    revert kept single
    cases Compile.within (w.files.fileCount + 2) p w with
    | ok s v => exact fun _ kept => kept.2
    | error e v => exact fun single kept => kept.resolve_left (single e rfl)

theorem Compile.Steady.compileAll {excused : BuildError → Prop}
    {K : List Path → Workbench → Prop} (steady : Steady A excused K) {paths : List Path}
    (h : K [] w) (admitted : ∀ p ∈ paths, A p)
    (faultless : ∀ p e, (p, e) ∈ (w.compileAll paths).1 → ¬ excused e) :
    K [] (w.compileAll paths).2 :=
  (steady.guided fun _ _ _ => True).compileAll (fun _ _ _ => trivial) (fun _ _ => trivial) h
    admitted faultless

theorem compiled_next (setting : Setting A S T base) (h : Settled A T base [] w) (hp : A p)
    (faultless : base.session.layout.Faultless (w.compile p).1) :
    Compiled A T base [p] w (w.next p) := by
  have quiet := quiet_next w p
  have knows : ∀ {x}, (w.next p).Knows x ↔ (w.compile p).2.Knows x := knows_quiet quiet
  have outcome := compile_outcome setting h hp
  rw [compile_run] at faultless quiet knows
  generalize within (w.files.fileCount + 2) p w = r at outcome faultless quiet knows
  cases outcome with
  | @ok s v compiles now settled stored =>
    refine ⟨settled.quiet quiet, fun x hx hk => ?_, fun _ => False, .none _, fun q mem => ?_⟩
    · exact (stored x hx (knows.mp hk)).imp_right fun reach => ⟨p, List.mem_singleton_self p, reach⟩
    · obtain rfl := List.mem_singleton.mp mem
      exact .inl (knows.mpr ⟨s, now⟩)
  | @error e v F bad settled stored stuck here =>
    refine ⟨settled.quiet quiet, fun x hx hk => ?_, F, ⟨stuck.bad, fun x hF d hd ask => ?_⟩,
      fun q mem => ?_⟩
    · exact (stored x hx (knows.mp hk)).imp_right fun reach => ⟨p, List.mem_singleton_self p, reach⟩
    · exact (stuck.asks x hF d hd ask).imp_left knows.mpr
    · obtain rfl := List.mem_singleton.mp mem
      exact .inr (here.resolve_left List.not_mem_nil)
  | fault fault _ => exact absurd fault (faultless _ rfl)

theorem Compiled.trans {paths paths' : List Path} {u : Workbench}
    (h : Compiled A T base paths w v) (h' : Compiled A T base paths' v u)
    (keeps : ∀ x, v.Knows x → u.Knows x) : Compiled A T base (paths ++ paths') w u := by
  obtain ⟨F, stuck, here⟩ := h.stuck
  obtain ⟨F', stuck', here'⟩ := h'.stuck
  refine ⟨h'.settled, fun x hx hk => ?_, fun x => F x ∨ F' x, ⟨?_, ?_⟩, fun p mem => ?_⟩
  · rcases h'.stored x hx hk with hk | ⟨p, mem, reach⟩
    · exact (h.stored x hx hk).imp_right fun ⟨p, mem, reach⟩ =>
        ⟨p, List.mem_append_left _ mem, reach⟩
    · exact .inr ⟨p, List.mem_append_right _ mem, reach⟩
  · rintro x (hF | hF)
    · exact stuck.bad x hF
    · exact stuck'.bad x hF
  · rintro x (hF | hF) d hd ask
    · rcases stuck.asks x hF d hd ask with hk | hF | mem
      · exact .inl (keeps d hk)
      · exact .inr (.inl (.inl hF))
      · exact absurd mem List.not_mem_nil
    · exact (stuck'.asks x hF d hd ask).imp_right (.imp_left .inr)
  · rcases List.mem_append.mp mem with mem | mem
    · exact (here p mem).imp (keeps p) .inl
    · exact (here' p mem).imp_right .inr

/-- A batch stores what it should, and exactly the templates that do not compile fail. -/
theorem compileAll_compiled (setting : Setting A S T base) {paths : List Path}
    (h : Settled A T base [] w) (admitted : ∀ p ∈ paths, A p)
    (faultless : ∀ p e, (p, e) ∈ (w.compileAll paths).1 → ¬ base.session.layout.OutputFault e) :
    Compiled A T base paths w (w.compileAll paths).2 ∧
      ∀ p, (∃ e, (p, e) ∈ (w.compileAll paths).1) ↔ p ∈ paths ∧ ¬ Good base p := by
  induction paths generalizing w with
  | nil =>
    refine ⟨⟨h, fun _ _ => .inl, fun _ => False, .none _, ?_⟩, ?_⟩ <;>
      simp [Workbench.compileAll]
  | cons p paths ih =>
    rw [compileAll_cons] at faultless ⊢
    have hp := admitted p List.mem_cons_self
    have single : base.session.layout.Faultless (w.compile p).1 := by
      intro e he
      exact faultless p e (List.mem_append_left _ (by simp [he]))
    have first := compiled_next setting h hp single
    obtain ⟨rest, failures⟩ :=
      ih first.settled (fun q mem => admitted q (List.mem_cons_of_mem p mem))
      fun q e mem => faultless q e (List.mem_append_right _ mem)
    refine ⟨first.trans rest fun x => knows_compileAll, fun q => ?_⟩
    have good : (∃ e, (w.compile p).1 = .error e) ↔ ¬ Good base p := by
      unfold Good
      simp only [← compile_eq_ok setting h hp single]
      cases (w.compile p).1 <;> simp
    simp only [List.mem_append, exists_or, failures, List.mem_cons]
    rw [or_and_right]
    apply or_congr_left
    cases hc : (w.compile p).1 with
    | ok s =>
      simp only [hc, reduceCtorEq, exists_false, false_iff, not_not] at good
      simp only [List.not_mem_nil, exists_false, false_iff, not_and, not_not]
      rintro rfl
      exact good
    | error e =>
      simp only [hc, Except.error.injEq, exists_eq', true_iff] at good
      simp only [List.mem_singleton, Prod.mk.injEq, exists_eq_right]
      constructor
      · rintro rfl
        exact ⟨rfl, good⟩
      · exact And.left

/-- What is stored after a batch. -/
theorem Compiled.knows_iff {paths : List Path} (admitted : ∀ p ∈ paths, A p)
    (h : Compiled A T base.newGeneration paths base.newGeneration v) (hx : A x) :
    v.Knows x ↔ Good base.newGeneration x ∧ ∃ p ∈ paths, Reach A base.newGeneration p x := by
  obtain ⟨F, stuck, here⟩ := h.stuck
  constructor
  · rintro ⟨s, hs⟩
    refine ⟨(h.settled.good x s hx hs).good, (h.stored x hx ⟨s, hs⟩).resolve_left ?_⟩
    rintro ⟨t, ht⟩
    simp [Workbench.state, Workbench.newGeneration, Workbench.modifySession] at ht
  · rintro ⟨good, p, mem, reach⟩
    -- What is stored and what is stuck is closed under asking.
    have all : ∀ {y}, Reach A base.newGeneration p y → A y ∧ (v.Knows y ∨ F y) := by
      intro y reach
      induction reach with
      | refl => exact ⟨admitted p mem, here p mem⟩
      | @tail y z _ ask ih =>
        refine ⟨ask.1, ?_⟩
        obtain ⟨hy, hk | hF⟩ := ih
        · exact .inl (h.settled.closed y hy hk z ask.1 ask.2)
        · exact (stuck.asks y hF z ask.1 ask.2).imp_right fun h => h.resolve_right List.not_mem_nil
    exact (all reach).2.resolve_right fun hF => stuck.bad x hF good

end SchemaLoom
