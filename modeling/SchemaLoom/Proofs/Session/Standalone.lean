import SchemaLoom.Proofs.Session.Lockstep

/-!
# A template among others

Where nothing changes what compiling a template reads, a batch compiles it to the document that it
has on its own, whatever else is compiled in the batch, and so does every later compilation. Its
output then holds the text of that document, until something else is written there.
-/

namespace SchemaLoom

open Compile FileSystem

variable {p q : Path} {base w v u : Workbench} {s t : CompiledSchema} {S : Place}

/-! ## On its own -/

/-- Compiling a template on its own succeeds, and its output holds the text of the document if that
is exported. -/
def Workbench.UpToDate (w : Workbench) (p : Path) : Prop :=
  ∃ s, (w.newGeneration.compile p).1 = .ok s ∧ (s.isExported = true →
    w.files.readText (w.session.layout.outputFor p) = .ok (w.textOf s))

/-- What is stored when a template was compiled on its own. -/
theorem compile_new (run : (w.newGeneration.compile p).1 = .ok s) : s.source = p ∧
    (w.alone p).state p = .known s ∧ (∃ document, w.files.readTemplate p = .ok document) ∧
      ∃ v, Compile.keep s v = .ok ⟨⟩ (w.alone p) := by
  have known := compile_known run
  rw [compile_run] at run
  unfold Workbench.alone
  rw [compile_run] at known ⊢
  cases hr : within (w.newGeneration.files.fileCount + 2) p w.newGeneration with
  | error e u => simp [hr] at run
  | ok t u =>
    rw [hr] at run known
    obtain rfl : t = s := Except.ok.inj run
    have unknown : w.newGeneration.state p = .unknown := rfl
    rw [within_succ_run] at hr
    simp only [unknown] at hr
    split at hr
    · rename_i t' u' fresh
      obtain ⟨rfl, rfl⟩ := EStateM.Result.ok.inj hr
      obtain ⟨document, v, read, expands, kept⟩ := fresh_eq_ok fresh
      exact ⟨expanded_source expands, known, ⟨document, read⟩, v, kept⟩
    · cases hr

theorem Workbench.Sound.steadfast {T : Place} (sound : w.Sound S T) (hp : Admits T p)
    (run : (w.newGeneration.compile p).1 = .ok s) : Steadfast p w := by
  have confined := sound.confined_alone hp
  obtain ⟨rfl, known, -⟩ := compile_new run
  refine ⟨sound.files, ⟨s, run⟩, fun t ht => (confined.sources _ t ht).1.canonical, fun t ht => ?_⟩
  obtain ⟨admitted, document, read⟩ := confined.sources _ t ht.1
  exact sound.harmless hp ⟨s, known⟩ admitted read

/-- A template that compiles on its own can be written. -/
theorem accepts_of_compile (absolute : w.session.layout.output.isAbsolute = true)
    (run : (w.newGeneration.compile p).1 = .ok s) (exported : s.isExported = true) :
    w.files.Accepts (w.session.layout.outputFor p) := by
  obtain ⟨rfl, -, -, v, kept⟩ := compile_new run
  have later : Later w (w.alone s.source) :=
    ((Recorded.steady absolute).compile trivial (recorded_newGeneration w)).later
  rw [keep_run, if_pos exported] at kept
  have wrote := kept ▸ write_run s (v.finished s)
  have layout : v.session.layout = w.session.layout :=
    wrote.later.layout.symm.trans later.layout
  have output : (v.finished s).outputOf s = w.session.layout.outputFor s.source := by
    show v.session.layout.outputFor s.source = _
    rw [layout]
  have root := Layout.outputFor_isAbsolute absolute s.source
  obtain ⟨place, found, -⟩ := wrote.file_ok (output ▸ root)
  exact accepts_of_file later.files.smaller root (output ▸ found)

namespace Steadfast

theorem isFile (h : Steadfast p w) : w.files.isFile p = true := by
  obtain ⟨s, run⟩ := h.compiles
  obtain ⟨-, -, ⟨document, read⟩, -⟩ := compile_new run
  obtain ⟨text, read, -⟩ := readTemplate_eq_ok read
  obtain ⟨place, found⟩ := readText_eq_ok.mp read
  exact isFile_iff.mpr ⟨place, _, found⟩

/-- What is stored when the template is compiled on its own. -/
def Stored (p : Path) (w : Workbench) (s : CompiledSchema) : Prop := (w.alone p).Contains s

variable (absolute : w.session.layout.output.isAbsolute = true)
include absolute

theorem terrain (h : Steadfast p w) : Terrain w (Undisturbed p w) (Stored p w) where
  absolute := absolute
  files := h.files
  congr same undisturbed := undisturbed.congr same
  writes stored exported later files undisturbed :=
    h.harmless _ ⟨stored, exported⟩ _ later files undisturbed

theorem derived (h : Steadfast p w) (hs : Stored p w s) :
    Derived w (Undisturbed p w) (Stored p w) p s := by
  have start := Recounted.start (q := p) (h.terrain absolute)
    (SameGround.undisturbed (w := w) (v := w) ⟨rfl, rfl, rfl, rfl, rfl⟩ p)
  have recounted : Recounted w (Undisturbed p w) (Stored p w) p [] (w.alone p) :=
    (Recounted.steady (h.terrain absolute)).compile trivial start
  exact recounted.derived (fun _ => id) s hs

/-- Another run that reads the same as the compilation of the template on its own stores the same
document. -/
theorem unique (h : Steadfast p w) {N : Workbench → Prop} {Φ : CompiledSchema → Prop}
    (right : Terrain base N Φ) (layout : base.session.layout = w.session.layout)
    (spelling : ∀ s t, Stored p w s → Φ t → s.source.same t.source = true → s.source = t.source)
    (agree : ∀ s t v, Stored p w s → Φ t → s.source = t.source → N v → SameSources s.source w v ∧
      (s.document.getString? Directive.docsUrlKey = t.document.getString? Directive.docsUrlKey →
        SamePage s.document w v))
    (hs : Stored p w s) (ht : Derived base N Φ q t) (same : s.source = t.source) : s = t := by
  refine Derived.unique (h.terrain absolute) right layout spelling
    (fun s t v u hs ht same hv hu => ?_)
    (h.derived absolute hs) ht same
  obtain ⟨sources, page⟩ := agree s t u hs ht same hu
  exact ⟨(hv.sources s hs).symm.trans sources, fun address =>
    (hv.pages s hs).symm.trans (page address)⟩

theorem same (h : Steadfast p w) (h' : Steadfast p v) (undisturbed : Undisturbed p w v)
    (run : (w.newGeneration.compile p).1 = .ok s) (run' : (v.newGeneration.compile p).1 = .ok t) :
    s = t := by
  obtain ⟨hs, known, -⟩ := compile_new run
  obtain ⟨ht, known', -⟩ := compile_new run'
  have stored : Stored p w s := (congrArg _ hs).trans known
  have stored' : Stored p v t := (congrArg _ ht).trans known'
  have layout := (undisturbed.sources s stored).layout
  have absolute' : v.session.layout.output.isAbsolute = true := by rwa [← layout]
  refine h.unique absolute (h'.terrain absolute') layout.symm
    (fun s t hs ht => (h.spelled s hs).eq_of_same (h'.spelled t ht))
    (fun s t u hs ht same hu => ?_) stored (h'.derived absolute' stored') (hs.trans ht.symm)
  refine ⟨(undisturbed.sources s hs).trans (same ▸ hu.sources t ht), fun address => ?_⟩
  exact (undisturbed.pages s hs).trans ((hu.pages t ht).congr address.symm)

end Steadfast

theorem Workbench.UpToDate.undisturbed (absolute : w.session.layout.output.isAbsolute = true)
    (up : w.UpToDate p) (h : Steadfast p w) (h' : Steadfast p v) (undisturbed : Undisturbed p w v)
    (output : ∀ text, w.files.readText (w.session.layout.outputFor p) = .ok text →
      v.files.readText (w.session.layout.outputFor p) = .ok text) : v.UpToDate p := by
  obtain ⟨s, run, written⟩ := up
  obtain ⟨t, run'⟩ := h'.compiles
  obtain rfl := h.same absolute h' undisturbed run run'
  obtain ⟨hs, known, -⟩ := compile_new run
  have layout := (undisturbed.sources s ((congrArg _ hs).trans known)).layout
  refine ⟨s, run', fun exported => ?_⟩
  rw [← layout, undisturbed.references s known]
  exact output _ (written exported)

/-! ## In a batch -/

/-- Storing a document, and writing it if it is exported, leaves a template and its output alone. -/
structure Unobtrusive (p : Path) (w : Workbench) (s : CompiledSchema) : Prop where
  harmless : s.isExported = true → Harmless p w s
  apart : s.isExported = true → s.source ≠ p → ¬ w.session.layout.SharesOutput s.source p
  /-- It is no document of a template that is compiled for it, under another spelling. -/
  spelled : ∀ t, (w.alone p).Contains t → t.source.same s.source = true → t.source = s.source

theorem Workbench.Sound.unobtrusive {T : Place} (sound : w.Sound S T) (hp : Admits T p)
    (run : (w.newGeneration.compile p).1 = .ok t) (hs : Admits T s.source) {document : Json}
    (read : w.files.readTemplate s.source = .ok document)
    (apart : s.isExported = true → s.source ≠ p → ¬ w.session.layout.SharesOutput s.source p) :
    Unobtrusive p w s := by
  obtain ⟨rfl, known, -⟩ := compile_new run
  exact ⟨fun _ => sound.harmless hp ⟨t, known⟩ hs read, apart, fun u hu =>
    (sound.confined_alone hp).sources _ u hu |>.1.canonical.eq_of_same hs.canonical⟩

/-- In a batch that leaves a template alone, its output is up to date if the template was compiled,
and otherwise it stays so. -/
theorem Steadfast.batch {paths : List Path}
    (absolute : w.session.layout.output.isAbsolute = true) (h : Steadfast p w)
    (ground : SameGround w base) (run : Quiet (base.compileBatch paths).2 v)
    (fine : v.Fine (Unobtrusive p w)) (h' : Steadfast p v) (up : v.Knows p ∨ w.UpToDate p) :
    v.UpToDate p := by
  have terrain : Terrain base (Undisturbed p w) (Unobtrusive p w) :=
    ⟨ground.layout ▸ absolute, ground.files ▸ h.files, fun same undisturbed =>
      undisturbed.congr same,
      fun good exported later => good.harmless exported _ <|
        Later.trans ⟨ground.layout, ground.isPretty, ground.files ▸ .refl⟩ later⟩
  have ended : Recounted base (Undisturbed p w) (Unobtrusive p w) p [] v :=
    (Recounted.steady terrain).quiet ((Recounted.steady terrain).compileAll
      (.start terrain (ground.undisturbed p)) (fun _ _ => trivial) fun _ _ _ => id) run
  have undisturbed : Undisturbed p w v := ended.course.holds fine
  have alone : AloneIn base.session.layout (Unobtrusive p w) p :=
    fun s good exported => ground.layout ▸ good.apart exported
  obtain ⟨s, own⟩ := h.compiles
  obtain ⟨t, own'⟩ := h'.compiles
  obtain rfl := h.same absolute h' undisturbed own own'
  obtain ⟨rfl, known, -⟩ := compile_new own
  have layout : v.session.layout = w.session.layout := (undisturbed.sources s known).layout.symm
  refine ⟨s, own', fun exported => ?_⟩
  rw [layout, undisturbed.references s known]
  by_cases compiled : v.Knows s.source
  · obtain ⟨t, knows⟩ := compiled
    have stored : v.Contains t := ended.course.contains knows
    have spelled : s.source = t.source :=
      (fine t stored).spelled s known (Path.same_comm.trans (ended.course.sources _ t knows))
    obtain rfl : s = t := by
      refine h.unique absolute terrain ground.layout (fun s t hs ht => ht.spelled s hs)
        (fun s t u hs ht same hu => ⟨hu.sources s hs, fun _ => hu.pages s hs⟩) known
        (ended.derived fine t stored) spelled
    rcases ended.course.filed alone fine s ⟨stored, exported⟩ rfl with ⟨u, hu, read⟩ | refused
    · rw [← hu.references s known, ← layout]
      exact read
    · exact absurd (accepts_of_compile (layout ▸ absolute) own' exported) refused
  · obtain ⟨t, ran, written⟩ := up.resolve_left compiled
    obtain rfl : s = t := Except.ok.inj (own.symm.trans ran)
    have kept := ended.course.kept alone fine (fun t ht same => compiled ⟨t, same ▸ ht.1⟩)
    rw [ground.layout, ground.files] at kept
    exact kept _ (written exported)

end SchemaLoom
