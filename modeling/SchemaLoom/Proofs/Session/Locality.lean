import SchemaLoom.Proofs.Session.Memo

/-!
# What a template depends on

A template is compiled from the documents of those that it asks for. So where two workbenches show
the same, and hold the same text for everything that a template reaches, it compiles to the same
document on both, and asks for the same. By induction along what is asked for.
-/

namespace SchemaLoom

open Compile

variable {A : Path → Prop} {S T : Place} {w v u base : Workbench} {p x y d : Path}
  {s : CompiledSchema}

/-! ## What a template looks at -/

namespace Sources.SameVariants

variable {a b c : Sources} {raw : String} {exclude : List String}

theorem symm (h : a.SameVariants b raw exclude) : b.SameVariants a raw exclude :=
  ⟨h.directory.symm, fun directory hd => (h.variants directory (h.directory.trans hd)).symm⟩

theorem trans (h : a.SameVariants b raw exclude) (h' : b.SameVariants c raw exclude) :
    a.SameVariants c raw exclude :=
  ⟨h.directory.trans h'.directory, fun directory hd =>
    (h.variants directory hd).trans (h'.variants directory (h.directory.symm.trans hd))⟩

end Sources.SameVariants

namespace ImportDirective.Alike

variable {d : ImportDirective}

theorem symm (h : d.Alike w v) : d.Alike v w := by
  cases d with
  | conditional a => exact Sources.SameVariants.symm h
  | conditionalContents a => exact Sources.SameVariants.symm h
  | registry a => exact Eq.symm h
  | filesIntoArray a => exact Sources.SameVariants.symm h
  | include_ a => exact ⟨h.1.symm, fun none => (h.2 (h.1.trans none)).symm⟩

theorem trans (h : d.Alike w v) (h' : d.Alike v u) : d.Alike w u := by
  cases d with
  | conditional a => exact Sources.SameVariants.trans h h'
  | conditionalContents a => exact Sources.SameVariants.trans h h'
  | registry a => exact Eq.trans h h'
  | filesIntoArray a => exact Sources.SameVariants.trans h h'
  | include_ a => exact ⟨h.1.trans h'.1, fun none => (h.2 none).trans (h'.2 (h.1.symm.trans none))⟩

end ImportDirective.Alike

/-- The text of a template, and what its directives look at, is the same on both. -/
structure SameSources (x : Path) (w v : Workbench) : Prop where
  layout : w.session.layout = v.session.layout
  text : ∀ document, w.files.readTemplate x = .ok document ↔ v.files.readTemplate x = .ok document
  imports : ∀ document, w.files.readTemplate x = .ok document →
    ∀ d ∈ document.imports, d.Alike w v

namespace SameSources

theorem symm (h : SameSources x w v) : SameSources x v w :=
  ⟨h.layout.symm, fun document => (h.text document).symm, fun document read d mem =>
    (h.imports document ((h.text document).mpr read) d mem).symm⟩

theorem trans (h : SameSources x w v) (h' : SameSources x v u) : SameSources x w u :=
  ⟨h.layout.trans h'.layout, fun document => (h.text document).trans (h'.text document),
    fun document read d mem => (h.imports document read d mem).trans
      (h'.imports document ((h.text document).mp read) d mem)⟩

end SameSources

/-- Whatever the expansion of a document looks at is the same on both workbenches. -/
structure SameOutlook (document : Json) (w v : Workbench) : Prop where
  layout : w.session.layout = v.session.layout
  docs : w.session.docs = v.session.docs
  imports : ∀ d ∈ document.imports, d.Alike w v
  page : ∀ site url, w.session.docs = some site →
    (site.page w.files url).toOption = (site.page v.files url).toOption

theorem SameOutlook.congr {document : Json} {w' v' : Workbench} (h : SameOutlook document w v)
    (hw : SameView w w') (hv : SameView v v') : SameOutlook document w' v' where
  layout := hw.layout.symm.trans (h.layout.trans hv.layout)
  docs := hw.docs.symm.trans (h.docs.trans hv.docs)
  imports d mem := (hw.alike d).symm.trans ((h.imports d mem).trans (hv.alike d))
  page site url hs := by
    have here := hw.docs.trans hs
    exact (hw.page site url here).symm.trans ((h.page site url here).trans
      (hv.page site url (h.docs.symm.trans here)))

/-! ## One expansion on two workbenches -/

/-- Both show the same, and the subject has asked for the same on both. -/
structure Mirrored (subject : Subject) (document : Json) (w v : Workbench) : Prop where
  outlook : SameOutlook document w v
  asked : ∀ d, Asked subject w d ↔ Asked subject v d

/-- Both workbenches mirror each other until both expansions fail. -/
def mirrored (subject : Subject) (document : Json) : Coupling :=
  ⟨Mirrored subject document, fun _ _ => True, fun _ => False, fun _ _ => False⟩

theorem mirrored_stable (subject : Subject) (document : Json) :
    (mirrored subject document).Stable (SameOutlook document) fun _ => True where
  view h := h.outlook
  finds _ := finds_any _
  quiet h hw hv := by
    refine ⟨h.outlook.congr hw.sameView hv.sameView, fun d => ?_⟩
    rw [asked_quiet hw, asked_quiet hv]
    exact h.asked d
  failed _ := trivial

theorem sameView_linked (w : Workbench) (p d : Path) : SameView w (w.linked p d) :=
  ⟨rfl, rfl, rfl, fun _ => rfl, fun _ _ _ _ => rfl, fun _ => rfl, fun _ _ _ => rfl⟩

theorem sameView_cleared (w : Workbench) (subject : Subject) : SameView w (w.cleared subject) :=
  ⟨rfl, rfl, rfl, fun _ => rfl, fun _ _ _ _ => rfl, fun _ => rfl, fun _ _ _ => rfl⟩

theorem Workbench.subject_congr (layout : w.session.layout = v.session.layout) (p : Path) :
    v.subject p = w.subject p := by
  unfold Workbench.subject
  rw [layout]

theorem SameView.subject (h : SameView w v) (p : Path) : v.subject p = w.subject p :=
  Workbench.subject_congr h.layout p

theorem asked_cleared {subject : Subject} :
    Asked subject (w.cleared subject) d ↔ subject.source.same d = true :=
  asked_forgotten (w := w.say "compile" subject.id)

/-- An expansion that succeeds on one workbench succeeds on one that shows the same. -/
theorem attempt_mirrored {document : Json} (outlook : SameOutlook document w v)
    {known : Path → Option CompiledSchema} {u : Workbench}
    (run : attempt w known p document = .ok s u) :
    ∃ u', attempt v known p document = .ok s u' ∧
      ∀ d, Asked (w.subject p) u d ↔ Asked (v.subject p) u' d := by
  have calls : ∀ d, True → ∀ b c, Mirrored (w.subject p) document b c →
      Coupled (mirrored (w.subject p) document) (fun _ => True)
        (dependency (answer known) (w.subject p).source d b)
        (dependency (answer known) (w.subject p).source d c) := by
    intro d _ b c related
    rw [dependency_run, dependency_run, answer_run, answer_run]
    cases known d with
    | none => exact .error trivial
    | some t =>
      refine .ok trivial ⟨related.outlook.congr (sameView_linked _ _ _) (sameView_linked _ _ _),
        fun e => ?_⟩
      rw [asked_linked_iff, asked_linked_iff, related.asked e]
  have start : Mirrored (w.subject p) document (w.cleared (w.subject p))
      (v.cleared (w.subject p)) := by
    refine ⟨outlook.congr (sameView_cleared _ _) (sameView_cleared _ _), fun d => ?_⟩
    rw [asked_cleared, asked_cleared]
  have uniform := Uniform.expanded_of (V := SameOutlook document) (A := fun _ => True) (w.subject p)
    (fun _ _ same => same.layout) (fun d mem _ _ same => same.imports d mem)
    (fun _ _ same => same.docs) fun _ _ same => same.page
  have coupled := Uniform.coupled (mirrored_stable (w.subject p) document) calls
    (uniform.mono fun _ _ => trivial) _ _ start
  unfold attempt at run ⊢
  rw [Workbench.subject_congr outlook.layout p, run] at *
  match expanded (answer known) (w.subject p) document (v.cleared (w.subject p)), coupled with
  | _, .ok _ related => exact ⟨_, rfl, related.asked⟩

/-! ## Documents from those that are asked for -/

/-- An expansion that succeeds got an answer to all that it asked for. -/
theorem attempt_answered (setting : Setting A S T base) (hp : A p)
    {known : Path → Option CompiledSchema} {document : Json} {u : Workbench}
    (run : attempt base known p document = .ok s u) (hd : A d) (ask : Asked (base.subject p) u d) :
    d = p ∨ ∃ t, known d = some t := by
  let K : Workbench → Prop := fun w => Finds A w ∧
    ∀ d, A d → Asked (base.subject p) w d → d = p ∨ ∃ t, known d = some t
  have calls : ∀ d, A d → ∀ w, K w → Kept K (fun _ => True) (fun _ => True)
      (dependency (answer known) (base.subject p).source d w) := by
    intro d hd w hw
    rw [dependency_run, answer_run]
    cases hk : known d with
    | none => exact .inl trivial
    | some t =>
      refine ⟨trivial, hw.1.linked, fun e he ask => ?_⟩
      rcases asked_linked_iff.mp ask with ask | same
      · exact hw.2 e he ask
      · exact .inr ⟨t, (setting.same_iff hd he).mp same ▸ hk⟩
  have start : K (base.cleared (base.subject p)) := by
    refine ⟨Finds.of_eq (w := base) rfl rfl setting.finds, fun e he ask => .inl ?_⟩
    have self : (base.subject p).source.same e = true := asked_cleared.mp ask
    exact ((setting.same_iff hp he).mp self).symm
  have kept := (Uniform.expanded (base.subject p) document).kept (fun _ hw => hw.1)
    (fun w v hw quiet => ⟨hw.1.quiet quiet, fun e he ask => hw.2 e he ((asked_quiet quiet).mp ask)⟩)
    calls _ start
  unfold attempt at run
  rw [run] at kept
  exact kept.2.2 d hd ask

/-- Induction along what templates ask for. -/
theorem Compiles.asked_induction (setting : Setting A S T base)
    {motive : Path → CompiledSchema → Prop}
    (step : ∀ {p s document u} (known : Path → Option CompiledSchema), A p →
      base.files.readTemplate p = .ok document → attempt base known p document = .ok s u →
      (∀ d t, known d = some t →
        A d ∧ Asks base p d ∧ Compiles base (fun _ => False) d t ∧ motive d t) →
      (∀ d, A d → Asks base p d → d = p ∨ ∃ t, known d = some t) → motive p s)
    (h : Compiles base (fun _ => False) p s) (hp : A p) : motive p s := by
  classical
  induction h with
  | @intro p s document u known _ answers read run ih =>
    have asks := fun d => asks_iff (d := d) answers read run
    -- Of the answers only those count that were asked for.
    let used : Path → Option CompiledSchema := fun d =>
      if A d ∧ Asks base p d then known d else none
    have finds : Finds A (base.cleared (base.subject p)) :=
      Finds.of_eq (w := base) rfl rfl setting.finds
    have run' : attempt base used p document = .ok s u := by
      apply (Uniform.expanded (base.subject p) document).restrict finds run
      intro d hd ask
      exact (if_pos ⟨hd, (asks d).mpr ask⟩).symm
    refine step used hp read run' (fun d t hd => ?_) fun d hd ask => ?_
    · by_cases asked : A d ∧ Asks base p d
      · have hk : known d = some t := (if_pos asked).symm.trans hd
        exact ⟨asked.1, asked.2, answers d t hk, ih d t hk asked.1⟩
      · exact absurd ((if_neg asked).symm.trans hd) (by simp)
    · exact attempt_answered setting hp run' hd ((asks d).mp ask)

theorem Good.asks (setting : Setting A S T base) (hp : A p) (good : Good base p) (hd : A d)
    (ask : Asks base p d) : Good base d := by
  obtain ⟨s, compiles⟩ := good
  refine compiles.asked_induction (motive := fun p s => Compiles base (fun _ => False) p s →
    ∀ d, A d → Asks base p d → Good base d) setting ?_ hp compiles d hd ask
  intro p s document u known hp read run answers complete compiles d hd ask
  rcases complete d hd ask with rfl | ⟨t, hk⟩
  · exact ⟨s, compiles⟩
  · exact ⟨t, (answers d t hk).2.2.1⟩

theorem Good.reach (setting : Setting A S T base) (hp : A p) (good : Good base p)
    (reach : Reach A base p x) : A x ∧ Good base x := by
  induction reach with
  | refl => exact ⟨hp, good⟩
  | tail _ ask ih => exact ⟨ask.1, ih.2.asks setting ih.1 ask.1 ask.2⟩

/-! ## From one workbench to another -/

/-- Both workbenches hold the same document for everything that a template reaches. -/
def ReadsAlike (A : Path → Prop) (w v : Workbench) (p : Path) : Prop :=
  ∀ x, Reach A w p x → ∀ document,
    w.files.readTemplate x = .ok document ↔ v.files.readTemplate x = .ok document

/-- Both workbenches show the same to everything that a template reaches. -/
structure SeesAlike (A : Path → Prop) (w v : Workbench) (p : Path) : Prop where
  docs : w.session.docs = v.session.docs
  page : ∀ site url, w.session.docs = some site →
    (site.page w.files url).toOption = (site.page v.files url).toOption
  sources : ∀ x, Reach A w p x → SameSources x w v

namespace SeesAlike

theorem of_view (view : SameView w v) (alike : ReadsAlike A w v p) : SeesAlike A w v p :=
  ⟨view.docs, view.page, fun x reach => ⟨view.layout, alike x reach, fun _ _ d _ => view.alike d⟩⟩

theorem reach (h : SeesAlike A w v p) (reach : Reach A w p x) : SeesAlike A w v x :=
  ⟨h.docs, h.page, fun y further => h.sources y (reach.trans further)⟩

theorem outlook (h : SeesAlike A w v p) {document : Json}
    (read : w.files.readTemplate p = .ok document) : SameOutlook document w v :=
  ⟨(h.sources p .refl).layout, h.docs, (h.sources p .refl).imports document read, h.page⟩

end SeesAlike

theorem Compiles.carried (setting : Setting A S T w) (hp : A p) (alike : SeesAlike A w v p)
    (h : Compiles w (fun _ => False) p s) :
    Compiles v (fun _ => False) p s ∧ ∀ d, Asks w p d ↔ Asks v p d := by
  refine h.asked_induction (motive := fun p s => SeesAlike A w v p →
    Compiles v (fun _ => False) p s ∧ ∀ d, Asks w p d ↔ Asks v p d) setting ?_ hp alike
  intro p s document u known hp read run answers _ alike
  obtain ⟨u', run', asked⟩ := attempt_mirrored (alike.outlook read) run
  have read' := ((alike.sources p .refl).text document).mp read
  have good : ∀ d t, known d = some t → Compiles w (fun _ => False) d t :=
    fun d t hk => (answers d t hk).2.2.1
  have good' : ∀ d t, known d = some t → Compiles v (fun _ => False) d t := by
    intro d t hk
    obtain ⟨hd, ask, -, ih⟩ := answers d t hk
    exact (ih (alike.reach (.single ⟨hd, ask⟩))).1
  refine ⟨.intro known id good' read' run', fun d => ?_⟩
  rw [asks_iff good read run, asks_iff good' read' run']
  exact asked d

namespace Good

variable (setting : Setting A S T w) (hp : A p) (good : Good w p) (alike : SeesAlike A w v p)
include setting hp good alike

theorem carried : Good v p := by
  obtain ⟨s, compiles⟩ := good
  exact ⟨s, (compiles.carried setting hp alike).1⟩

theorem compiles_carried :
    Compiles w (fun _ => False) p s ↔ Compiles v (fun _ => False) p s := by
  constructor
  · intro h
    exact (h.carried setting hp alike).1
  · intro h
    obtain ⟨t, compiles⟩ := good
    rwa [h.unique (compiles.carried setting hp alike).1]

theorem asks_carried : Asks w p d ↔ Asks v p d := by
  obtain ⟨s, compiles⟩ := good
  exact (compiles.carried setting hp alike).2 d

theorem reach_carried : Reach A w p x ↔ Reach A v p x := by
  have step : ∀ {y z}, Reach A w p y → (Asks w y z ↔ Asks v y z) := by
    intro y z reach
    obtain ⟨hy, goodY⟩ := good.reach setting hp reach
    exact goodY.asks_carried setting hy (alike.reach reach)
  constructor
  · intro reach
    induction reach with
    | refl => exact .refl
    | tail reach ask ih => exact ih.tail ⟨ask.1, (step reach).mp ask.2⟩
  · intro reach
    induction reach with
    | refl => exact .refl
    | tail _ ask ih => exact ih.tail ⟨ask.1, (step ih).mpr ask.2⟩

end Good

end SchemaLoom
