import SchemaLoom.Proofs.Session.Locality
import SchemaLoom.Proofs.Session.Transparency
import SchemaLoom.Proofs.Session.Upheld

/-!
# Templates that are up to date

A template is up to date if it compiles, the import graph holds all that it asks for, and its output
holds the text of its document. After a batch without failures the templates of the batch are up to
date, with all that they reach. So are those that were up to date with all that they reach before:
what the batch compiled it left up to date, and the rest it left alone.
-/

namespace SchemaLoom

open Compile FileSystem

variable {A : Path → Prop} {S T : Place} {base w v : Workbench} {p x : Path} {s : CompiledSchema}
  {paths : List Path}

/-- A template compiles, and its output holds the text of its document. -/
structure Rendered (w : Workbench) (x : Path) : Prop where
  good : Good w x
  written : ∀ s, Compiles w (fun _ => False) x s → s.isExported = true →
    ∃ o, (w.session.layout.outputFor x).LeadsTo o ∧
      w.files.entry? o = some (.file (.text (w.textOf s)))

structure UpToDate (A : Path → Prop) (w : Workbench) (x : Path) : Prop extends Rendered w x where
  linked : ∀ d, A d → Asks w x d → Asked (w.subject x) w d

/-- A template is up to date with all that it reaches. -/
def Current (A : Path → Prop) (w : Workbench) (p : Path) : Prop :=
  ∀ x, Reach A w p x → UpToDate A w x

/-! ## From one workbench to another -/

theorem ReadsAlike.of_reads (hp : A p) (reads : ∀ x, A x → ∀ document,
    w.files.readTemplate x = .ok document ↔ v.files.readTemplate x = .ok document) :
    ReadsAlike A w v p := by
  intro x reach
  cases reach with
  | refl => exact reads p hp
  | tail _ ask => exact reads x ask.1

/-- The output of a template did not change. -/
def KeepsOutput (w v : Workbench) (x : Path) : Prop :=
  ∀ o text, (w.session.layout.outputFor x).LeadsTo o →
    w.files.entry? o = some (.file (.text text)) → v.files.entry? o = some (.file (.text text))

/-- Nothing about a template changed. -/
structure Carries (w v : Workbench) (x : Path) : Prop where
  asked : ∀ d, Asked (w.subject x) w d → Asked (w.subject x) v d
  output : KeepsOutput w v x

section Carried

variable (setting : Setting A S T w)
include setting

theorem Rendered.carried (h : Rendered w x) (hx : A x) (alike : SeesAlike A w v x)
    (text : ∀ s, Compiles w (fun _ => False) x s → v.textOf s = w.textOf s)
    (output : KeepsOutput w v x) : Rendered v x where
  good := h.good.carried setting hx alike
  written s compiles exported := by
    have before := (h.good.compiles_carried setting hx alike).mpr compiles
    obtain ⟨o, place, file⟩ := h.written s before exported
    rw [← (alike.sources x .refl).layout, text s before]
    exact ⟨o, place, output o _ place file⟩

theorem UpToDate.carried (h : UpToDate A w x) (hx : A x) (alike : SeesAlike A w v x)
    (text : ∀ s, Compiles w (fun _ => False) x s → v.textOf s = w.textOf s)
    (carries : Carries w v x) : UpToDate A v x where
  toRendered := h.toRendered.carried setting hx alike text carries.output
  linked d hd ask := by
    have asked := h.linked d hd ((h.good.asks_carried setting hx alike).mpr ask)
    rw [Workbench.subject_congr (alike.sources x .refl).layout]
    exact carries.asked d asked

theorem Current.carried (view : SameView w v) (pretty : v.session.isPretty = w.session.isPretty)
    (h : Current A w p) (hp : A p) (alike : ReadsAlike A w v p)
    (carries : ∀ x, Reach A w p x → Carries w v x) : Current A v p := by
  have alike := SeesAlike.of_view view alike
  intro x reach
  have good := (h p .refl).good
  have before := (good.reach_carried setting hp alike).mpr reach
  obtain ⟨hx, -⟩ := good.reach setting hp before
  exact (h x before).carried setting hx (alike.reach before) (fun s _ => view.textOf pretty s)
    (carries x before)

end Carried

/-! ## A batch without failures -/

theorem Setting.newGeneration (setting : Setting A S T base) : Setting A S T base.newGeneration :=
  ⟨setting.sound.newGeneration, setting.admits, Finds.of_eq (w := base) rfl rfl setting.finds⟩

/-- What is known behind a batch in which every template compiled. -/
structure Succeeded (A : Path → Prop) (T : Place) (base : Workbench) (paths : List Path)
    (v : Workbench) : Prop where
  admitted : ∀ p ∈ paths, A p
  good : ∀ p ∈ paths, Good base.newGeneration p
  compiled : Compiled A T base.newGeneration paths base.newGeneration v
  laid : Laid A base.newGeneration v
  untouched : Untouched base.session.imports [] v

theorem compileAll_succeeded (setting : Setting A S T base)
    (distinct : NoSharing A base.session.layout) (admitted : ∀ p ∈ paths, A p)
    (ok : (base.newGeneration.compileAll paths).1 = []) :
    Succeeded A T base paths (base.newGeneration.compileAll paths).2 := by
  have none : ∀ (excused : BuildError → Prop) p e,
      (p, e) ∈ (base.newGeneration.compileAll paths).1 → ¬ excused e := by
    intro _ p e mem
    rw [ok] at mem
    exact absurd mem List.not_mem_nil
  obtain ⟨compiled, failed⟩ := compileAll_compiled setting.newGeneration
    (settled_newGeneration base) admitted (none _)
  refine ⟨admitted, fun p mem => ?_, compiled, ?_, ?_⟩
  · by_contra bad
    obtain ⟨e, he⟩ := (failed p).mpr ⟨mem, bad⟩
    exact none (fun _ => True) p e he trivial
  · exact ((Laying.steady setting.newGeneration distinct).compileAll (laying_newGeneration base)
      admitted (none _)).laid
  · apply (Untouched.steady base.session.imports).compileAll _ (fun _ _ => trivial) (none _)
    exact ⟨fun q mem => absurd mem List.not_mem_nil, fun x _ d => Iff.rfl⟩

namespace Succeeded

theorem unchanged (h : Succeeded A T base paths v) : Unchanged T base.newGeneration v :=
  h.compiled.settled.unchanged

/-- No output stands where that of a template stands that was not compiled, nor below it. -/
theorem output_iff (h : Succeeded A T base paths v) (distinct : NoSharing A base.session.layout)
    (hx : A x) (unknown : ¬ v.Knows x) {o : Place}
    (place : (base.session.layout.outputFor x).LeadsTo o) (contents : Contents) :
    v.files.entry? o = some (.file contents) ↔ base.files.entry? o = some (.file contents) := by
  by_cases above : ∃ y t o', Exports A base.newGeneration v y t o' ∧ o <+: o'
  · obtain ⟨y, t, o', exports, above⟩ := above
    have other : o ≠ o' := by
      rintro rfl
      have same := (place.same_iff exports.place).mpr rfl
      obtain rfl := distinct x y hx exports.admitted same
      exact unknown ⟨t, exports.known⟩
    have directory := h.laid.above y t o' o exports above other
    refine iff_of_false (by simp [directory]) fun file => ?_
    obtain ⟨c, now⟩ := h.unchanged.files.keepsFile file
    simp [directory] at now
  · rw [h.laid.kept o fun y t o' exports below => above ⟨y, t, o', exports, below⟩]
    exact Iff.rfl

theorem carries_of_unknown (h : Succeeded A T base paths v)
    (distinct : NoSharing A base.session.layout) (hx : A x) (unknown : ¬ v.Knows x) :
    Carries base v x := by
  have state : v.state x = .unknown := by
    cases hs : v.state x with
    | unknown => rfl
    | cycle => exact absurd ((h.compiled.settled.progress x hx).mp hs) List.not_mem_nil
    | known t => exact absurd ⟨t, hs⟩ unknown
  constructor
  · intro d ask
    exact ask.imp_left (h.untouched.edges x state d).mpr
  · intro o text place file
    exact (h.output_iff distinct hx unknown place _).mpr file

variable (setting : Setting A S T base) (h : Succeeded A T base paths v)
include setting h

theorem view : SameView base.newGeneration v :=
  setting.newGeneration.sound.sameView h.compiled.settled.unchanged

theorem view_base : SameView base v :=
  have view := h.view setting
  ⟨view.layout, view.registry, view.docs, view.directory, view.variants, view.single, view.page⟩

theorem reads (hx : A x) (document : Json) :
    base.files.readTemplate x = .ok document ↔ v.files.readTemplate x = .ok document :=
  (setting.newGeneration.sound.toRooted.readTemplate h.unchanged (setting.admits x hx)).symm

theorem alike (hp : A p) : SeesAlike A base.newGeneration v p := by
  refine .of_view (h.view setting) (.of_reads hp fun x hx => ?_)
  have reads := h.reads setting hx
  exact reads

theorem alike_base (hp : A p) : SeesAlike A base v p :=
  .of_view (h.view_base setting) (.of_reads hp fun _ hx => h.reads setting hx)

theorem knows (mem : p ∈ paths) (reach : Reach A base.newGeneration p x) : v.Knows x := by
  have good := h.good p mem
  obtain ⟨hx, goodX⟩ := good.reach setting.newGeneration (h.admitted p mem) reach
  exact (h.compiled.knows_iff h.admitted hx).mpr ⟨goodX, p, mem, reach⟩

/-- What was compiled is up to date. -/
theorem upToDate_of_knows (hx : A x) (known : v.Knows x) : UpToDate A v x := by
  obtain ⟨t, ht⟩ := known
  have settled := h.compiled.settled
  have compiles := settled.good x t hx ht
  have view := h.view setting
  have alike := h.alike setting hx
  have good := compiles.good
  refine ⟨⟨good.carried setting.newGeneration hx alike, fun s written exported => ?_⟩,
    fun d hd ask => ?_⟩
  · have before := (good.compiles_carried setting.newGeneration hx alike).mpr written
    obtain rfl := compiles.unique before
    obtain ⟨o, ho⟩ := h.laid.places x t hx ht exported
    rw [← view.layout, view.textOf settled.unchanged.isPretty]
    exact ⟨o, ho.place, h.laid.written x t o ho⟩
  · rw [view.subject]
    apply (settled.edges x hx ⟨t, ht⟩ d hd).mpr
    exact (good.asks_carried setting.newGeneration hx alike).mpr ask

theorem upToDate (distinct : NoSharing A base.session.layout) (hx : A x)
    (covered : v.Knows x ∨ UpToDate A base x) : UpToDate A v x := by
  by_cases known : v.Knows x
  · exact h.upToDate_of_knows setting hx known
  · exact (covered.resolve_left known).carried setting hx (h.alike_base setting hx)
      (fun s _ => (h.view_base setting).textOf h.unchanged.isPretty s)
      (h.carries_of_unknown distinct hx known)

theorem rendered (distinct : NoSharing A base.session.layout) (hx : A x)
    (covered : v.Knows x ∨ Rendered base x) : Rendered v x := by
  by_cases known : v.Knows x
  · exact (h.upToDate_of_knows setting hx known).toRendered
  · exact (covered.resolve_left known).carried setting hx (h.alike_base setting hx)
      (fun s _ => (h.view_base setting).textOf h.unchanged.isPretty s)
      (h.carries_of_unknown distinct hx known).output

theorem current (distinct : NoSharing A base.session.layout) (hp : A p)
    (covered : p ∈ paths ∨ Current A base p) : Current A v p := by
  intro x reach
  rcases covered with mem | before
  · have good := h.good p mem
    have reach := (good.reach_carried setting.newGeneration hp (h.alike setting hp)).mpr reach
    obtain ⟨hx, -⟩ := good.reach setting.newGeneration hp reach
    exact h.upToDate_of_knows setting hx (h.knows setting mem reach)
  · have good := (before p .refl).good
    have reach := (good.reach_carried setting hp (h.alike_base setting hp)).mpr reach
    obtain ⟨hx, -⟩ := good.reach setting hp reach
    exact h.upToDate setting distinct hx (.inr (before x reach))

end Succeeded

theorem Workbench.compileBatch_failures (w : Workbench) (paths : List Path) :
    (w.compileBatch paths).1.failures = (w.newGeneration.compileAll paths).1 := rfl

theorem compileBatch_succeeded (setting : Setting A S T base)
    (distinct : NoSharing A base.session.layout) (admitted : ∀ p ∈ paths, A p)
    (ok : (base.compileBatch paths).1.isOk = true) :
    Succeeded A T base paths (base.compileBatch paths).2 := by
  apply compileAll_succeeded setting distinct admitted
  rw [← base.compileBatch_failures]
  exact List.isEmpty_iff.mp ok

theorem compileBatch_upheld (setting : Setting A S T base)
    (edges : base.session.imports.Joins A) (admitted : ∀ p ∈ paths, A p) :
    Upheld A T base.newGeneration (base.compileBatch paths).2 := by
  have start : Upheld A T base.newGeneration base.newGeneration :=
    ⟨.refl _, edges⟩
  exact (upheld_steady setting.newGeneration).compileAll start admitted fun _ _ _ => id

end SchemaLoom
