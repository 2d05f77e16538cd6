import SchemaLoom.Proofs.Session.Footprint

/-!
# Two compilations of one template

Two runs that read the same compile the same, whatever else happens meanwhile: other templates may
be compiled before and in between, and other files may change. Both runs are followed side by side.
That they read the same is only known as long as no output in the way is written, so it is
concluded backwards from what is stored in the end.
-/

namespace SchemaLoom

open Compile FileSystem

variable {p x : Path} {w v u : Workbench} {s t : CompiledSchema}

namespace Compile

variable {V : Workbench → Workbench → Prop} {A : Path → Prop} {subject : Subject} {α : Type}
  {c c' : Path → Compile CompiledSchema} {K K' G G' : Workbench → Prop}

/-! ## Runs that succeed -/

/-- In a run that succeeds, `K` is kept, and `G` held before if it holds in the end. -/
structure Strand (A : Path → Prop) (subject : Subject) (c : Path → Compile CompiledSchema)
    (K G : Workbench → Prop) : Prop where
  finds : ∀ {w}, K w → Finds A w
  quiet : ∀ {w v}, Quiet w v → K w → K v ∧ (G v → G w)
  calls : ∀ {d w t v}, A d → dependency c subject.source d w = .ok t v → K w → K v ∧ (G v → G w)

theorem Strand.run (strand : Strand A subject c K G)
    {f : (Path → Compile CompiledSchema) → Compile α} {Q : α → Prop}
    (h : Uniform V A subject f Q) : ∀ {w v : Workbench} {a : α}, f c w = .ok a v → K w →
      Q a ∧ K v ∧ (G v → G w) := by
  induction h with
  | pure a ha =>
    intro w v b run hw
    obtain ⟨rfl, rfl⟩ := EStateM.Result.ok.inj run
    exact ⟨ha, hw, id⟩
  | throw id fault =>
    intro w v b run hw
    cases run
  | look _ _ ih => exact fun run hw => ih _ (strand.finds hw) run hw
  | note g quiet =>
    intro w v b run hw
    obtain ⟨-, rfl⟩ := EStateM.Result.ok.inj run
    exact ⟨trivial, strand.quiet (quiet w) hw⟩
  | call d hd => exact fun run hw => ⟨trivial, strand.calls hd run hw⟩
  | bind _ _ ihf ihg =>
    intro w v b run hw
    obtain ⟨a, u, first, second⟩ := bind_eq_ok.mp run
    obtain ⟨ha, hu, before⟩ := ihf first hw
    obtain ⟨hb, hv, later⟩ := ihg a ha second hu
    exact ⟨hb, hv, before ∘ later⟩

/-- Two runs that succeed yield the same if they see the same and get the same answers. -/
theorem Uniform.lockstep (left : Strand A subject c K G) (right : Strand A subject c' K' G')
    (view : ∀ {w v}, K w → G w → K' v → G' v → V w v)
    (answers : ∀ {d w v t t' w' v'}, A d → dependency c subject.source d w = .ok t w' →
      dependency c' subject.source d v = .ok t' v' → K w → K' v → G w' → G' v' → t = t')
    {f : (Path → Compile CompiledSchema) → Compile α} {Q : α → Prop}
    (h : Uniform V A subject f Q) : ∀ {w v w' v' : Workbench} {a b : α},
      f c w = .ok a w' → f c' v = .ok b v' → K w → K' v → G w' → G' v' → a = b := by
  induction h with
  | pure a _ =>
    intro w v w' v' b b' run run' _ _ _ _
    exact (EStateM.Result.ok.inj run).1.symm.trans (EStateM.Result.ok.inj run').1
  | throw id fault =>
    intro w v w' v' b b' run
    cases run
  | @look _ _ f same rest ih =>
    intro w v w' v' b b' run run' hw hv gw gv
    have h := rest w (left.finds hw)
    have before : G w := (left.run h run hw).2.2 gw
    have before' : G' v := (right.run (rest v (right.finds hv)) run' hv).2.2 gv
    have seen : f w = f v := same w v (view hw before hv before')
    exact ih w (left.finds hw) run (seen ▸ run') hw hv gw gv
  | note g _ =>
    intro w v w' v' b b' _ _ _ _ _ _
    rfl
  | call d hd => exact fun run run' hw hv gw gv => answers hd run run' hw hv gw gv
  | @bind _ _ _ _ f g hf hg ihf ihg =>
    intro w v w' v' b b' run run' hw hv gw gv
    obtain ⟨a, u, first, second⟩ := bind_eq_ok.mp run
    obtain ⟨a', u', first', second'⟩ := bind_eq_ok.mp run'
    obtain ⟨ha, hu, -⟩ := left.run hf first hw
    obtain ⟨ha', hu', -⟩ := right.run hf first' hv
    have gu : G u := (left.run (hg a ha) second hu).2.2 gw
    have gu' : G' u' := (right.run (hg a' ha') second' hu').2.2 gv
    obtain rfl := ihf first first' hw hv gu gu'
    exact ihg a ha second second' hu hu' gw gv

/-- Two expansions of one document come to the same. -/
theorem expanded_unique (left : Strand A subject c K G) (right : Strand A subject c' K' G')
    {document : Json} {s s' : CompiledSchema}
    (seen : ∀ {w v}, K w → G w → K' v → G' v → w.session.layout = v.session.layout ∧
      ∀ d ∈ document.imports, d.Alike w v)
    (page : ∀ {w v}, K w → G w → K' v → G' v →
      s.document.getString? Directive.docsUrlKey = s'.document.getString? Directive.docsUrlKey →
        SamePage s.document w v)
    (answers : ∀ {d w v t t' w' v'}, A d → dependency c subject.source d w = .ok t w' →
      dependency c' subject.source d v = .ok t' v' → K w → K' v → G w' → G' v' → t = t')
    {w v w' v' : Workbench} (run : expanded c subject document w = .ok s w')
    (run' : expanded c' subject document v = .ok s' v') (hw : K w) (hv : K' v) (gw : G w')
    (gv : G' v') : s = s' := by
  obtain ⟨w₀, merged, u, executed, quiet, executes, correlates, rfl⟩ := expanded_eq_ok run
  obtain ⟨v₀, merged', u', executed', quiet', executes', correlates', rfl⟩ := expanded_eq_ok run'
  have executing : Uniform (fun w v => w.session.layout = v.session.layout ∧
      ∀ d ∈ document.imports, d.Alike w v) A subject (fun compile =>
        executeAll compile subject document [] (Discovery.ofDocument document).calls)
      fun _ => True :=
    Uniform.executeAll (fun _ _ related => related.1) document [] fun call mem d hd _ _ related =>
      related.2 d (List.mem_flatMap.mpr ⟨call, mem, hd⟩)
  have hw₀ := (left.quiet quiet hw).1
  have hv₀ := (right.quiet quiet' hv).1
  obtain ⟨-, hu, -⟩ := left.run executing executes hw₀
  obtain ⟨-, hu', -⟩ := right.run executing executes' hv₀
  have correlating : ∀ merged, Uniform (SamePage merged) A subject
      (fun _ => correlateDocs subject.id merged) fun _ => True := fun merged =>
    Uniform.correlateDocs subject.id (fun _ _ same => same.docs) fun _ _ same => same.page
  have gu : G u := (left.run (correlating merged) correlates hu).2.2 gw
  have gu' : G' u' := (right.run (correlating merged') correlates' hu').2.2 gv
  obtain rfl := executing.lockstep left right seen answers executes executes' hw₀ hv₀ gu gu'
  have address : executed.stripDirectives.getString? Directive.docsUrlKey =
      merged.getString? Directive.docsUrlKey := by
    rw [getString?_stripDirectives, getString?_correlateDocs correlates]
  have address' : executed'.stripDirectives.getString? Directive.docsUrlKey =
      merged.getString? Directive.docsUrlKey := by
    rw [getString?_stripDirectives, getString?_correlateDocs correlates']
  have shown : ∀ {w v}, K w → G w → K' v → G' v → SamePage merged w v := fun hw gw hv gv =>
    (page hw gw hv gv (address.trans address'.symm)).congr address
  obtain rfl := (correlating merged).lockstep left right shown answers correlates correlates'
    hu hu' gw gv
  rfl

end Compile

/-! ## What is known of a run -/

/-- Two templates have the same output file. -/
def Layout.SharesOutput (l : Layout) (p q : Path) : Prop :=
  ∃ (files : FileSystem) (place : Place), files.locate (l.outputFor p) = .ok place ∧
    files.locate (l.outputFor q) = .ok place

namespace Workbench

/-- All that is stored satisfies a property. -/
def Fine (Φ : CompiledSchema → Prop) (w : Workbench) : Prop := ∀ s, w.Contains s → Φ s

/-- Whatever is stored on one workbench is stored on the other one too. -/
def Below (w v : Workbench) : Prop := ∀ x s, w.state x = .known s → v.state x = .known s

theorem Below.fine {Φ : CompiledSchema → Prop} (h : w.Below v) (fine : v.Fine Φ) : w.Fine Φ :=
  fun s hs => fine s (h s.source s hs)

end Workbench

/-- The output of a document was written when `N` held, or it cannot be written. -/
def Filed (N : Workbench → Prop) (w : Workbench) (s : CompiledSchema) : Prop :=
  (∃ v, N v ∧ w.files.readText (w.outputOf s) = .ok (v.textOf s)) ∨
    ¬ w.files.Accepts (w.outputOf s)

/-- None of the exported documents shares its output with another template. -/
def AloneIn (l : Layout) (Φ : CompiledSchema → Prop) (q : Path) : Prop :=
  ∀ s, Φ s → s.isExported = true → s.source ≠ q → ¬ l.SharesOutput s.source q

/-- As long as nothing is stored but documents that satisfy `Φ`, it does not matter for `N` what
else is compiled. -/
structure Terrain (base : Workbench) (N : Workbench → Prop) (Φ : CompiledSchema → Prop) :
    Prop where
  absolute : base.session.layout.output.isAbsolute = true
  files : WellFormed base.files
  congr : ∀ {w v}, SameGround w v → N w → N v
  writes : ∀ {s w}, Φ s → s.isExported = true → Later base w → WellFormed w.files → N w →
    N (reached (Compile.write s w))

/-- A run that started at `base`, while the templates of a list are being compiled. The output of
`q` is watched. -/
structure Course (base : Workbench) (N : Workbench → Prop) (Φ : CompiledSchema → Prop) (q : Path)
    (P : List Path) (w : Workbench) : Prop where
  later : Later base w
  files : WellFormed w.files
  marks : w.session.cache.Marks P
  sources : ∀ x s, w.state x = .known s → s.source.same x = true
  holds : w.Fine Φ → N w
  filed : AloneIn base.session.layout Φ q → w.Fine Φ → ∀ s, w.Stores s → s.source = q →
    Filed N w s
  kept : AloneIn base.session.layout Φ q → w.Fine Φ → (∀ s, w.Stores s → s.source ≠ q) → ∀ text,
    base.files.readText (base.session.layout.outputFor q) = .ok text →
      w.files.readText (base.session.layout.outputFor q) = .ok text

namespace Course

variable {base : Workbench} {N : Workbench → Prop} {Φ : CompiledSchema → Prop} {q : Path}
  {P Q : List Path} {schema : CompiledSchema}

theorem contains (h : Course base N Φ q P w) (known : w.state x = .known s) : w.Contains s :=
  (Cache.state_congr (h.sources x s known)).trans known

theorem congr (terrain : Terrain base N Φ) (h : Course base N Φ q P w) (ground : SameGround w v)
    (marks : v.session.cache.Marks Q) (known : ∀ x s, v.state x = .known s ↔ w.state x = .known s) :
    Course base N Φ q Q v := by
  have fine : v.Fine Φ → w.Fine Φ := fun fine s hs => fine s ((known s.source s).mpr hs)
  have later : Later w v := ⟨ground.layout, ground.isPretty, ground.files ▸ .refl⟩
  refine ⟨h.later.trans later, ground.files ▸ h.files, marks,
    fun x s hs => h.sources x s ((known x s).mp hs),
    fun hv => terrain.congr ground (h.holds (fine hv)), fun apart hv s hs same => ?_,
    fun apart hv absent => ?_⟩
  · have filed := h.filed apart (fine hv) s ⟨(known s.source s).mp hs.1, hs.2⟩ same
    unfold Filed at filed ⊢
    rwa [later.outputOf, ground.files]
  · rw [ground.files]
    exact h.kept apart (fine hv) fun s hs => absent s ⟨(known s.source s).mpr hs.1, hs.2⟩

theorem below_finished (marks : w.session.cache.Marks (schema.source :: P))
    (known : ∀ x s, v.state x = .known s ↔ (w.finished schema).state x = .known s) :
    w.Below v := by
  intro x s hs
  refine (known x s).mpr (Cache.known_finish.mpr (.inr ⟨?_, hs⟩))
  rw [Bool.eq_false_iff]
  intro same
  have cycle : w.state x = .cycle :=
    (Cache.state_congr same).symm.trans (marks.busy _ List.mem_cons_self)
  simp [cycle] at hs

/-- One more document is stored. -/
theorem store (h : Course base N Φ q (schema.source :: P) w) (later : Later w v)
    (files : WellFormed v.files) (marks : v.session.cache.Marks Q)
    (known : ∀ x s, v.state x = .known s ↔ (w.finished schema).state x = .known s)
    (absolute : base.session.layout.output.isAbsolute = true) (holds : Φ schema → N w → N v)
    (new : schema.isExported = true → N w → Filed N v schema)
    (old : (schema.isExported = true → ¬ base.session.layout.SharesOutput schema.source q) →
      ∀ text, w.files.readText (base.session.layout.outputFor q) = .ok text →
        v.files.readText (base.session.layout.outputFor q) = .ok text) :
    Course base N Φ q Q v := by
  have below : w.Below v := below_finished h.marks known
  have cases : ∀ {x s}, v.state x = .known s ↔ schema.source.same x = true ∧ s = schema ∨
      schema.source.same x = false ∧ w.state x = .known s := fun {x s} =>
    (known x s).trans Cache.known_finish
  have stored : v.Contains schema := cases.mpr (.inl ⟨Path.same_self _, rfl⟩)
  have root : w.session.layout.output.isAbsolute = true := h.later.layout ▸ absolute
  refine ⟨h.later.trans later, files, marks, fun x s hs => ?_, fun fine => ?_,
    fun apart fine s hs same => ?_, fun apart fine absent text read => ?_⟩
  · rcases cases.mp hs with ⟨same, rfl⟩ | ⟨-, hw⟩
    · exact same
    · exact h.sources x s hw
  · exact holds (fine schema stored) (h.holds (below.fine fine))
  · rcases cases.mp hs.1 with ⟨-, rfl⟩ | ⟨ne, hw⟩
    · exact new hs.2 (h.holds (below.fine fine))
    · rcases h.filed apart (below.fine fine) s ⟨hw, hs.2⟩ same with ⟨u, hu, read⟩ | refused
      · refine .inl ⟨u, hu, ?_⟩
        simp only [Workbench.outputOf, later.layout, h.later.layout, same] at read ⊢
        refine old (fun exported => apart schema (fine schema stored) exported ?_) _ read
        rintro rfl
        simp [← same] at ne
      · exact .inr (later.refused root refused)
  · refine old (fun exported => ?_) text (h.kept apart (below.fine fine) (fun s hs => ?_) text read)
    · exact apart schema (fine schema stored) exported (absent schema ⟨stored, exported⟩)
    · exact absent s ⟨below s.source s hs.1, hs.2⟩

theorem readText_write {done : PUnit} (absolute : w.session.layout.output.isAbsolute = true)
    (wrote : Wrote w schema (.ok done v))
    (apart : ¬ w.session.layout.SharesOutput schema.source q) {text : String}
    (read : w.files.readText (w.session.layout.outputFor q) = .ok text) :
    v.files.readText (w.session.layout.outputFor q) = .ok text := by
  have root := Layout.outputFor_isAbsolute absolute
  obtain ⟨place, found, other⟩ := wrote.file_ok (root _)
  obtain ⟨own, hown⟩ := readText_eq_ok.mp read
  obtain ⟨hl, he⟩ := find_eq_ok.mp hown
  have located := locate_mono (root q) (fun _ => wrote.later.files.keepsDirectory) hl
  refine readText_eq_ok.mpr ⟨own, find_eq_ok.mpr ⟨located, other own _ ?_ he⟩⟩
  rintro rfl
  exact apart ⟨v.files, own, (find_eq_ok.mp found).1, located⟩

theorem start (terrain : Terrain base N Φ) (h : N base) :
    Course base N Φ q [] base.newGeneration where
  later := ⟨rfl, rfl, .refl⟩
  files := terrain.files
  marks := ⟨Cache.distinct_empty, by simp, .nil⟩
  sources x s known := by
    simp [Workbench.state, Workbench.newGeneration, Workbench.modifySession] at known
  holds _ := terrain.congr (w := base) ⟨rfl, rfl, rfl, rfl, rfl⟩ h
  filed _ _ s hs := by
    have known := hs.1
    simp [Workbench.state, Workbench.newGeneration, Workbench.modifySession] at known
  kept _ _ _ _ read := read

theorem finished_ground (w : Workbench) (schema : CompiledSchema) :
    SameGround w (w.finished schema) := ⟨rfl, rfl, rfl, rfl, rfl⟩

/-- A document was stored, and written if it is exported. -/
theorem keep_ok (terrain : Terrain base N Φ) (h : Course base N Φ q (schema.source :: P) w)
    (run : Compile.keep schema w = .ok ⟨⟩ u) : Course base N Φ q P u := by
  have root : w.session.layout.output.isAbsolute = true := h.later.layout ▸ terrain.absolute
  have stored : Later w (w.finished schema) := ⟨rfl, rfl, .refl⟩
  have ground := finished_ground w schema
  obtain ⟨marks, known⟩ := keep_ok_known h.marks run
  rw [keep_run] at run
  split at run
  · rename_i exported
    have wrote := run ▸ write_run schema (w.finished schema)
    have later : Later w u := stored.trans wrote.later
    have files : WellFormed u.files :=
      wrote.wellFormed (Layout.outputFor_isAbsolute root _) h.files
    refine h.store later files marks known terrain.absolute (fun good hw => ?_)
      (fun _ hw => .inl ?_)
      fun apart text read => ?_
    · have kept := terrain.writes good exported (h.later.trans stored) h.files
        (terrain.congr ground hw)
      rwa [run, reached_ok] at kept
    · obtain ⟨place, found, -⟩ := wrote.file_ok (Layout.outputFor_isAbsolute root _)
      refine ⟨w.finished schema, terrain.congr ground hw, ?_⟩
      rw [later.outputOf]
      exact readText_eq_ok.mpr ⟨place, found⟩
    · rw [← h.later.layout] at apart read ⊢
      exact readText_write (w := w.finished schema) root wrote (apart exported) read
  · rename_i internal
    obtain rfl : w.finished schema = u := by simpa using run
    exact h.store stored h.files marks known terrain.absolute (fun _ hw => terrain.congr ground hw)
      (fun exported => absurd exported internal) fun _ _ read => read

/-- A document was stored and could not be written. -/
theorem keep_error (terrain : Terrain base N Φ) (h : Course base N Φ q (schema.source :: P) w)
    {e : BuildError} (run : Compile.keep schema w = .error e u) :
    Course base N Φ q P (u.unmarked schema.source) := by
  have root : w.session.layout.output.isAbsolute = true := h.later.layout ▸ terrain.absolute
  have stored : Later w (w.finished schema) := ⟨rfl, rfl, .refl⟩
  have ground := finished_ground w schema
  obtain ⟨marks, known⟩ := keep_error_known h.marks run
  rw [keep_run] at run
  split at run
  · rename_i exported
    have wrote := run ▸ write_run schema (w.finished schema)
    have later : Later w (u.unmarked schema.source) :=
      (stored.trans wrote.later).trans ⟨rfl, rfl, .refl⟩
    have ended : SameGround u (u.unmarked schema.source) := ⟨rfl, rfl, rfl, rfl, rfl⟩
    have files : WellFormed u.files :=
      wrote.wellFormed (Layout.outputFor_isAbsolute root _) h.files
    refine h.store later files marks known terrain.absolute (fun good hw => ?_) (fun _ _ => .inr ?_)
      fun _ text read => ?_
    · have kept := terrain.writes good exported (h.later.trans stored) h.files
        (terrain.congr ground hw)
      rw [run, reached_error] at kept
      exact terrain.congr ended kept
    · exact later.refused root wrote.refused
    · -- A write that fails leaves every file as it is.
      obtain ⟨own, hown⟩ := readText_eq_ok.mp read
      obtain ⟨hl, he⟩ := find_eq_ok.mp hown
      have located := locate_mono (Layout.outputFor_isAbsolute terrain.absolute q)
        (fun _ => later.files.keepsDirectory) hl
      exact readText_eq_ok.mpr ⟨own, find_eq_ok.mpr ⟨located, wrote.file_error he⟩⟩
  · simp at run

/-- Every step of a compilation keeps the course. -/
theorem steady (terrain : Terrain base N Φ) :
    Steady (fun _ => True) (fun _ => False) (Course base N Φ q) where
  finds _ := finds_any _
  quiet h hq := by
    refine h.congr terrain (.quiet hq) ?_ fun x s => by rw [state_quiet hq]
    obtain ⟨-, diagnostics, session⟩ := hq
    rw [session]
    exact h.marks
  marked _ h unknown :=
    h.congr terrain ⟨rfl, rfl, rfl, rfl, rfl⟩ (h.marks.begin_ unknown) fun _ _ =>
      Cache.known_begin unknown
  forgotten _ h := h.congr terrain ⟨rfl, rfl, rfl, rfl, rfl⟩ h.marks fun _ _ => Iff.rfl
  linked _ _ h := h.congr terrain ⟨rfl, rfl, rfl, rfl, rfl⟩ h.marks fun _ _ => Iff.rfl
  unmarked {P w p} _ _ h := by
    have busy : w.session.cache.state p = .cycle := h.marks.busy p List.mem_cons_self
    refine .inr (h.congr terrain ⟨rfl, rfl, rfl, rfl, rfl⟩ h.marks.abandon fun _ _ => ?_)
    exact Cache.known_abandon h.marks.distinct (by simp [busy])
  keep := by
    rintro P w v p schema document - - - h rfl -
    exact ⟨fun u run => h.keep_ok terrain run, fun e u run => .inr (h.keep_error terrain run)⟩

theorem below_quiet (hq : Quiet w v) (h : v.Below u) : w.Below u := fun x s known =>
  h x s ((state_quiet hq x).trans known)

theorem below_within {length : Nat} {d : Path} (run : within length d w = .ok t v)
    (h : v.Below u) : w.Below u := by
  intro x s known
  have frozen := (within_frozen length d (x := x) (w := w) (by simp [known])).1
  rw [run, reached_ok] at frozen
  exact h x s (frozen.trans known)

theorem strand (terrain : Terrain base N Φ) (length : Nat) (subject : Subject) (u : Workbench) :
    Strand (fun _ => True) subject (within length)
      (Course base N Φ q (subject.source :: P)) fun v => v.Below u where
  finds _ := finds_any _
  quiet hq h := ⟨(steady terrain).quiet h hq, below_quiet hq⟩
  calls {d w t v} _ run h := by
    rw [dependency_run] at run
    have linked := (steady terrain).linked (d := d) trivial trivial h
    have kept := (steady terrain).within length (p := d) trivial linked
    rw [run] at kept
    exact ⟨kept.2, below_within (w := w.linked subject.source d) run⟩

end Course

/-! ## Where the documents come from -/

/-- A document that is stored in a course, with all that was stored when it was expanded. -/
inductive Derived (base : Workbench) (N : Workbench → Prop) (Φ : CompiledSchema → Prop)
    (q : Path) : CompiledSchema → Prop where
  | intro {s : CompiledSchema} {w v : Workbench} {P : List Path} {document : Json}
      {length : Nat} : Φ s → Course base N Φ q (s.source :: P) w →
      Course base N Φ q (s.source :: P) v → v.Fine Φ →
      w.files.readTemplate s.source = .ok document →
      expanded (within length) (w.subject s.source) document
        (w.cleared (w.subject s.source)) = .ok s v →
      (∀ t, v.Contains t → Derived base N Φ q t) → Derived base N Φ q s

/-- A course in which it is known where the documents come from. -/
structure Recounted (base : Workbench) (N : Workbench → Prop) (Φ : CompiledSchema → Prop)
    (q : Path) (P : List Path) (w : Workbench) : Prop where
  course : Course base N Φ q P w
  derived : w.Fine Φ → ∀ s, w.Contains s → Derived base N Φ q s

namespace Recounted

variable {base : Workbench} {N : Workbench → Prop} {Φ : CompiledSchema → Prop} {q : Path}
  {P Q : List Path} {schema : CompiledSchema}

theorem congr (h : Recounted base N Φ q P w) (course : Course base N Φ q Q v)
    (known : ∀ x s, v.state x = .known s ↔ w.state x = .known s) : Recounted base N Φ q Q v :=
  ⟨course, fun fine s hs => h.derived (fun t ht => fine t ((known _ t).mpr ht)) s
    ((known _ s).mp hs)⟩

theorem start (terrain : Terrain base N Φ) (h : N base) :
    Recounted base N Φ q [] base.newGeneration where
  course := Course.start terrain h
  derived _ s hs := by
    simp [Workbench.Contains, Workbench.state, Workbench.newGeneration,
      Workbench.modifySession] at hs

theorem steady (terrain : Terrain base N Φ) :
    Steady (fun _ => True) (fun _ => False) (Recounted base N Φ q) where
  finds _ := finds_any _
  quiet h hq := h.congr ((Course.steady terrain).quiet h.course hq) fun x s => by
    rw [state_quiet hq]
  marked hp h unknown := h.congr ((Course.steady terrain).marked hp h.course unknown)
    fun _ _ => Cache.known_begin unknown
  forgotten hp h := h.congr ((Course.steady terrain).forgotten hp h.course) fun _ _ => Iff.rfl
  linked hp hd h := h.congr ((Course.steady terrain).linked hp hd h.course) fun _ _ => Iff.rfl
  unmarked {P w p} e hp h := by
    have busy : w.session.cache.state p = .cycle := h.course.marks.busy p List.mem_cons_self
    exact .inr (h.congr (((Course.steady terrain).unmarked e hp h.course).resolve_left id)
      fun _ _ => Cache.known_abandon h.course.marks.distinct (by simp [busy]))
  keep := by
    rintro P w v p schema document hp hw read hv rfl ⟨length, run⟩
    obtain ⟨good, bad⟩ := (Course.steady terrain).keep hp hw.course read hv.course rfl ⟨length, run⟩
    -- All that was stored before is still stored, and the schema is derived from it.
    have stored : ∀ {u : Workbench} (_ : ∀ x s, u.state x = .known s ↔
        (v.finished schema).state x = .known s), u.Fine Φ → ∀ s, u.Contains s →
          Derived base N Φ q s := by
      intro u known fine s hs
      have before := (Course.below_finished hv.course.marks known).fine fine
      rcases Cache.known_finish.mp ((known _ s).mp hs) with ⟨-, rfl⟩ | ⟨-, hs⟩
      · exact .intro (fine s hs) hw.course hv.course before read run (hv.derived before)
      · exact hv.derived before s hs
    constructor
    · intro u hu
      exact ⟨good u hu, stored (keep_ok_known hv.course.marks hu).2⟩
    · intro e u hu
      exact .inr ⟨(bad e u hu).resolve_left id, stored (keep_error_known hv.course.marks hu).2⟩

end Recounted

/-! ## Both come to the same -/

/-- Two runs that read the same for a template compile it to the same document. -/
theorem Derived.unique {base base' : Workbench} {N N' : Workbench → Prop}
    {Φ Φ' : CompiledSchema → Prop} {q q' : Path} (left : Terrain base N Φ)
    (right : Terrain base' N' Φ') (layout : base'.session.layout = base.session.layout)
    (spelling : ∀ s s', Φ s → Φ' s' → s.source.same s'.source = true → s.source = s'.source)
    (agree : ∀ s s' w v, Φ s → Φ' s' → s.source = s'.source → N w → N' v →
      SameSources s.source w v ∧
        (s.document.getString? Directive.docsUrlKey = s'.document.getString? Directive.docsUrlKey →
          SamePage s.document w v))
    (h : Derived base N Φ q s) : ∀ {s'}, Derived base' N' Φ' q' s' → s.source = s'.source →
      s = s' := by
  induction h with
  | @intro s w v P document length good course ended fine read run _ ih =>
    intro s' h' same
    cases h' with
    | @intro _ w' v' P' document' length' good' course' ended' fine' read' run' below' =>
      have subject : w'.subject s'.source = w.subject s.source := by
        unfold Workbench.subject
        rw [course'.later.layout, course.later.layout, layout, same]
      have strand := Course.strand (q := q) (P := P) left length (w.subject s.source) v
      have strand' := Course.strand (q := q') (P := P') right length' (w.subject s.source) v'
      have start : Course base N Φ q (s.source :: P) (w.cleared (w.subject s.source)) :=
        (Course.steady left).cleared trivial course _
      have start' : Course base' N' Φ' q' (s.source :: P') (w'.cleared (w.subject s.source)) := by
        rw [same] at subject ⊢
        exact subject ▸ (Course.steady right).cleared trivial course' _
      rw [subject] at run'
      have alike : ∀ {u u'}, Course base N Φ q (s.source :: P) u → u.Below v →
          Course base' N' Φ' q' (s.source :: P') u' → u'.Below v' →
            SameSources s.source u u' ∧ (s.document.getString? Directive.docsUrlKey =
              s'.document.getString? Directive.docsUrlKey → SamePage s.document u u') :=
        fun hu below hu' below'' => agree s s' _ _ good good' same (hu.holds (below.fine fine))
          (hu'.holds (below''.fine fine'))
      have begun := (strand.run (Uniform.expanded _ document) run start).2.2 fun _ _ h => h
      have begun' := (strand'.run (Uniform.expanded _ document') run' start').2.2 fun _ _ h => h
      have text := (alike start begun start' begun').1.text
      obtain rfl : document = document' :=
        Except.ok.inj (((text document).mp read).symm.trans (same ▸ read'))
      refine expanded_unique strand strand' (fun hu below hu' below'' => ?_)
        (fun hu below hu' below'' => (alike hu below hu' below'').2) ?_ run run' start start'
        (fun _ _ h => h) fun _ _ h => h
      · have shown := (alike hu below hu' below'').1
        have own := (alike hu below start' begun').1.text
        exact ⟨shown.layout, shown.imports document
          ((own document).mpr ((text document).mp read))⟩
      · -- Both answers are stored, under the same spelling.
        intro d a b t t' a' b' _ call call' _ _ below below''
        have known := below d t (within_known call)
        have known' := below'' d t' (within_known call')
        have stored := ended.contains known
        have stored' := ended'.contains known'
        apply ih t stored (below' t' stored')
        apply spelling t t' (fine t stored) (fine' t' stored')
        rw [Path.same_iff, Path.same_iff.mp (ended.sources d t known),
          Path.same_iff.mp (ended'.sources d t' known')]

end SchemaLoom
