import SchemaLoom.Proofs.FileSystem.Making
import SchemaLoom.Proofs.Session.Generation

/-!
# What a report tells

The document of a template is stored before it is written. So a template whose output cannot be
written is listed as failing only where it is compiled first; asked for again it is answered from
the cache. A template that is not listed has its output exactly if that output can be written.
-/

namespace SchemaLoom

open SchemaLoom.Path FileSystem Compile

variable {base w v u : Workbench} {P : List Path} {p x : Path} {s t schema : CompiledSchema}

namespace Workbench

/-- A document that is stored and exported. -/
def Stores (w : Workbench) (s : CompiledSchema) : Prop :=
  w.state s.source = .known s ∧ s.isExported = true

/-- The outputs of two documents are the same file. -/
def Shares (w : Workbench) (s t : CompiledSchema) : Prop :=
  ∃ place, w.files.locate (w.outputOf s) = .ok place ∧ w.files.locate (w.outputOf t) = .ok place

/-- The output of a document holds its text, resolved with the files as they were at some time
since a workbench. -/
def Holds (w base : Workbench) (s : CompiledSchema) : Prop :=
  ∃ files, Grown [] base.files files ∧ Grown [] files w.files ∧
    w.files.readText (w.outputOf s) = .ok (({ w with files } : Workbench).textOf s)

end Workbench

/-- What became of the output of a document. -/
inductive Accounted (base w : Workbench) (s : CompiledSchema) : Prop where
  | held : w.Holds base s → Accounted base w s
  | refused : ¬ w.files.Accepts (w.outputOf s) → Accounted base w s
  | shared {t : CompiledSchema} : w.Stores t → s.source.same t.source = false → w.Shares s t →
      Accounted base w s

/-- The layout and the style of the outputs are the same, and the files have grown. -/
structure Later (base w : Workbench) : Prop where
  layout : w.session.layout = base.session.layout
  isPretty : w.session.isPretty = base.session.isPretty
  files : Grown [] base.files w.files

namespace Later

theorem refl (w : Workbench) : Later w w := ⟨rfl, rfl, .refl⟩

theorem trans (h : Later base w) (h' : Later w v) : Later base v :=
  ⟨h'.layout.trans h.layout, h'.isPretty.trans h.isPretty, h.files.trans h'.files⟩

theorem quiet (h : Quiet w v) : Later w v := by
  obtain ⟨files, diagnostics, session⟩ := h
  exact ⟨by rw [session], by rw [session], files ▸ .refl⟩

theorem outputOf (h : Later w v) (s : CompiledSchema) : v.outputOf s = w.outputOf s := by
  simp [Workbench.outputOf, h.layout]

theorem textOf (h : Later w v) (files : FileSystem) (s : CompiledSchema) :
    ({ v with files } : Workbench).textOf s = ({ w with files } : Workbench).textOf s := by
  simp only [Workbench.textOf, h.layout, h.isPretty]

theorem locate (h : Later w v) (absolute : w.session.layout.output.isAbsolute = true)
    {place : Place} (hl : w.files.locate (w.outputOf s) = .ok place) :
    v.files.locate (v.outputOf s) = .ok place := by
  rw [h.outputOf]
  exact locate_mono (Layout.outputFor_isAbsolute absolute _) (fun _ => h.files.keepsDirectory) hl

theorem shares (h : Later w v) (absolute : w.session.layout.output.isAbsolute = true)
    (hs : w.Shares s t) : v.Shares s t := by
  obtain ⟨place, first, second⟩ := hs
  exact ⟨place, h.locate absolute first, h.locate absolute second⟩

theorem refused (h : Later w v) (absolute : w.session.layout.output.isAbsolute = true)
    (hr : ¬ w.files.Accepts (w.outputOf s)) : ¬ v.files.Accepts (v.outputOf s) := by
  rw [h.outputOf]
  exact fun accepts =>
    hr (accepts.of_smaller (Layout.outputFor_isAbsolute absolute _) h.files.smaller)

theorem holds (h : Later w v) (absolute : w.session.layout.output.isAbsolute = true)
    (hw : w.Holds base s)
    (kept : ∀ place c, w.files.locate (w.outputOf s) = .ok place →
      w.files.entry? place = some (.file c) → v.files.entry? place = some (.file c)) :
    v.Holds base s := by
  obtain ⟨files, before, after, read⟩ := hw
  obtain ⟨place, found⟩ := readText_eq_ok.mp read
  obtain ⟨hl, he⟩ := find_eq_ok.mp found
  refine ⟨files, before, after.trans h.files, readText_eq_ok.mpr ⟨place, ?_⟩⟩
  rw [h.textOf]
  exact find_eq_ok.mpr ⟨h.locate absolute hl, kept place _ hl he⟩

theorem accounted (h : Later w v) (absolute : w.session.layout.output.isAbsolute = true)
    (stores : ∀ t, w.Stores t → v.Stores t) (hw : Accounted base w s)
    (kept : ∀ place c, w.files.locate (w.outputOf s) = .ok place →
      w.files.entry? place = some (.file c) → v.files.entry? place = some (.file c)) :
    Accounted base v s := by
  cases hw with
  | held hs => exact .held (h.holds absolute hs kept)
  | refused hr => exact .refused (h.refused absolute hr)
  | @shared t ht ne hs => exact .shared (stores t ht) ne (h.shares absolute hs)

end Later

/-- Every stored document is accounted for while the templates of a list are being compiled. -/
structure Recorded (base : Workbench) (P : List Path) (w : Workbench) : Prop where
  later : Later base w
  marks : w.session.cache.Marks P
  sources : ∀ x s, w.state x = .known s → s.source.same x = true
  accounted : ∀ s, w.Stores s → Accounted base w s

theorem Recorded.congr {Q : List Path} (absolute : base.session.layout.output.isAbsolute = true)
    (h : Recorded base P w) (later : Later w v) (files : v.files = w.files)
    (marks : v.session.cache.Marks Q) (known : ∀ x s, v.state x = .known s ↔ w.state x = .known s) :
    Recorded base Q v := by
  refine ⟨h.later.trans later, marks, fun x s hs => h.sources x s ((known x s).mp hs),
    fun s hs => ?_⟩
  have stores : ∀ t, v.Stores t ↔ w.Stores t := fun t => and_congr_left' (known t.source t)
  refine later.accounted (h.later.layout ▸ absolute) (fun t => (stores t).mpr)
    (h.accounted s ((stores s).mp hs)) fun place c _ he => ?_
  rwa [files]

/-- One more document is stored. -/
theorem Recorded.store {Q : List Path} (h : Recorded base (schema.source :: P) w)
    (later : Later w v) (marks : v.session.cache.Marks Q)
    (known : ∀ x s, v.state x = .known s ↔ (w.finished schema).state x = .known s)
    (new : schema.isExported = true → v.Stores schema → Accounted base v schema)
    (old : (∀ s, w.Stores s → v.Stores s) → ∀ s, w.Stores s → v.Stores s →
      schema.source.same s.source = false → Accounted base v s) : Recorded base Q v := by
  have busy := h.marks.busy _ List.mem_cons_self
  have apart : ∀ s, w.Stores s → schema.source.same s.source = false := by
    intro s hs
    rw [Bool.eq_false_iff]
    intro same
    have cycle : w.state s.source = .cycle := (Cache.state_congr same).symm.trans busy
    have known := hs.1
    simp [cycle] at known
  have cases : ∀ {x s}, v.state x = .known s ↔ schema.source.same x = true ∧ s = schema ∨
      schema.source.same x = false ∧ w.state x = .known s := fun {x s} =>
    (known x s).trans Cache.known_finish
  have stores : ∀ s, w.Stores s → v.Stores s := fun s hs =>
    ⟨cases.mpr (.inr ⟨apart s hs, hs.1⟩), hs.2⟩
  refine ⟨h.later.trans later, marks, fun x s hs => ?_, fun s hs => ?_⟩
  · rcases cases.mp hs with ⟨same, rfl⟩ | ⟨-, hw⟩
    · exact same
    · exact h.sources x s hw
  · have known := hs.1
    rcases cases.mp known with ⟨-, rfl⟩ | ⟨ne, hw⟩
    · exact new hs.2 hs
    · exact old stores s ⟨hw, hs.2⟩ hs ne

namespace Compile.Wrote

theorem refused {e : BuildError} (h : Wrote w schema (.error e v)) :
    ¬ w.files.Accepts (w.outputOf schema) := by
  rintro ⟨files, ready, accepts⟩
  cases h with
  | noDirectory cause hp _ failed => simp [ready.made _ hp] at failed
  | noFile cause ready' _ failed =>
    obtain rfl := ready.unique ready'
    obtain ⟨files', done⟩ := accepts (.text (w.textOf schema))
    simp [done] at failed

theorem later {r : EStateM.Result BuildError Workbench PUnit} (h : Wrote w schema r) :
    Later w (reached r) := by
  cases h with
  | noDirectory cause _ quiet _ => exact .quiet quiet
  | noFile cause ready quiet _ =>
    have same := Later.quiet quiet
    exact ⟨same.layout, same.isPretty, ready.grown⟩
  | written ready quiet done =>
    have same := Later.quiet quiet
    exact ⟨same.layout, same.isPretty, ready.grown.trans (writeFile_grown done)⟩

/-- A write that fails leaves every file as it is. -/
theorem file_error {e : BuildError} (h : Wrote w schema (.error e v)) {place : Place}
    {c : Contents} (hf : w.files.entry? place = some (.file c)) :
    v.files.entry? place = some (.file c) := by
  cases h with
  | noDirectory cause _ quiet _ =>
    rw [quiet.1]
    exact hf
  | noFile cause ready _ _ => exact ready.file.mpr hf

theorem file_ok {done : PUnit} (h : Wrote w schema (.ok done v))
    (ha : (w.outputOf schema).isAbsolute = true) :
    ∃ place, v.files.find (w.outputOf schema) = .ok (place, .file (.text (w.textOf schema))) ∧
      ∀ q c, q ≠ place → w.files.entry? q = some (.file c) →
        v.files.entry? q = some (.file c) := by
  cases h with
  | @written v files files' ready quiet wrote =>
    obtain ⟨place, hl, found⟩ := find_writeFile ha wrote
    refine ⟨place, found, fun q c ne hf => ?_⟩
    obtain ⟨place', hl', -, rfl⟩ := writeFile_eq_ok.mp wrote
    obtain rfl := Except.ok.inj (hl.symm.trans hl')
    simp only [Workbench.counted, Workbench.modifySession]
    rw [entry?_put_of_ne ne]
    exact ready.file.mpr hf

end Compile.Wrote

theorem Later.keep (w : Workbench) (s : CompiledSchema) : Later w (reached (Compile.keep s w)) := by
  have stored : Later w (w.finished s) := ⟨rfl, rfl, .refl⟩
  rw [keep_run]
  split
  · exact stored.trans (write_run s (w.finished s)).later
  · exact stored

theorem Later.steady (base : Workbench) :
    Steady (fun _ => True) (fun _ => False) fun _ w => Later base w :=
  .ofFiles (fun _ => finds_any _) (fun h hq => h.trans (.quiet hq))
    (fun _ _ h => h.trans ⟨rfl, rfl, .refl⟩) fun _ _ _ h _ => h.trans (.keep _ _)

/-- A document that was stored, and written if it is exported, is accounted for. -/
theorem Recorded.keep_ok (absolute : base.session.layout.output.isAbsolute = true)
    (h : Recorded base (schema.source :: P) w) (run : Compile.keep schema w = .ok ⟨⟩ u) :
    Recorded base P u := by
  have root : w.session.layout.output.isAbsolute = true := h.later.layout ▸ absolute
  have stored : Later w (w.finished schema) := ⟨rfl, rfl, .refl⟩
  obtain ⟨marks, known⟩ := keep_ok_known h.marks run
  rw [keep_run] at run
  split at run
  · rename_i exported
    have wrote := run ▸ write_run schema (w.finished schema)
    have later : Later w u := stored.trans wrote.later
    have output : u.outputOf schema = w.outputOf schema := later.outputOf schema
    obtain ⟨place, found, other⟩ := wrote.file_ok (Layout.outputFor_isAbsolute root _)
    refine h.store later marks known (fun _ _ => .held ?_) fun stores s hs _ ne => ?_
    · refine ⟨w.files, h.later.files, later.files, ?_⟩
      rw [output, later.textOf]
      exact readText_eq_ok.mpr ⟨place, found⟩
    · -- The output of another document is lost only to one that shares it.
      by_cases same : w.files.locate (w.outputOf s) = .ok place
      · refine .shared ⟨(known _ _).mpr (state_finished_self w schema), exported⟩
          (Path.same_comm.trans ne) ⟨place, later.locate root same, ?_⟩
        rw [output]
        exact (find_eq_ok.mp found).1
      · refine later.accounted root stores (h.accounted s hs) fun q c hl hf => ?_
        refine other q c ?_ hf
        rintro rfl
        exact same hl
  · rename_i internal
    obtain rfl : w.finished schema = u := by simpa using run
    exact h.store stored marks known (fun he => absurd he internal) fun stores s hs _ _ =>
      stored.accounted root stores (h.accounted s hs) fun _ _ _ hf => hf

/-- A document that could not be written stays stored, and its output is refused. -/
theorem Recorded.keep_error (absolute : base.session.layout.output.isAbsolute = true)
    (h : Recorded base (schema.source :: P) w) {e : BuildError}
    (run : Compile.keep schema w = .error e u) : Recorded base P (u.unmarked schema.source) := by
  have root : w.session.layout.output.isAbsolute = true := h.later.layout ▸ absolute
  have stored : Later w (w.finished schema) := ⟨rfl, rfl, .refl⟩
  obtain ⟨marks, known⟩ := keep_error_known h.marks run
  rw [keep_run] at run
  split at run
  · have wrote := run ▸ write_run schema (w.finished schema)
    have later : Later w (u.unmarked schema.source) :=
      (stored.trans wrote.later).trans ⟨rfl, rfl, .refl⟩
    refine h.store later marks known (fun _ _ => .refused ?_)
      fun stores s hs _ _ => ?_
    · exact later.refused root wrote.refused
    · exact later.accounted root stores (h.accounted s hs) fun q c _ hf => wrote.file_error hf
  · simp at run

/-- Every step of a compilation keeps all stored documents accounted for. -/
theorem Recorded.steady (absolute : base.session.layout.output.isAbsolute = true) :
    Steady (fun _ => True) (fun _ => False) (Recorded base) where
  finds _ := finds_any _
  quiet h hq := by
    refine h.congr absolute (.quiet hq) hq.1 ?_ fun x s => by rw [state_quiet hq]
    obtain ⟨-, diagnostics, session⟩ := hq
    rw [session]
    exact h.marks
  marked _ h unknown :=
    h.congr absolute ⟨rfl, rfl, .refl⟩ rfl (h.marks.begin_ unknown) fun _ _ =>
      Cache.known_begin unknown
  forgotten _ h := h.congr absolute ⟨rfl, rfl, .refl⟩ rfl h.marks fun _ _ => Iff.rfl
  linked _ _ h := h.congr absolute ⟨rfl, rfl, .refl⟩ rfl h.marks fun _ _ => Iff.rfl
  unmarked {P w p} _ _ h := by
    have busy : w.session.cache.state p = .cycle := h.marks.busy p List.mem_cons_self
    refine .inr (h.congr absolute ⟨rfl, rfl, .refl⟩ rfl h.marks.abandon fun _ _ => ?_)
    exact Cache.known_abandon h.marks.distinct (by simp [busy])
  keep := by
    rintro P w v p schema document - - - h rfl -
    exact ⟨fun u run => h.keep_ok absolute run, fun e u run => .inr (h.keep_error absolute run)⟩

/-! ## What an output shows -/

/-- An output can be written exactly if writing it succeeds. -/
theorem accepts_iff_write (w : Workbench) (s : CompiledSchema) :
    w.files.Accepts (w.outputOf s) ↔ ∃ u, Compile.write s w = .ok ⟨⟩ u := by
  have wrote := write_run s w
  cases hr : Compile.write s w with
  | error e v =>
    rw [hr] at wrote
    exact iff_of_false wrote.refused (by simp)
  | ok done v =>
    rw [hr] at wrote
    refine iff_of_true ?_ ⟨v, rfl⟩
    cases wrote with
    | written ready quiet done =>
      refine ⟨_, ready, fun contents => ?_⟩
      obtain ⟨place, hl, free, -⟩ := writeFile_eq_ok.mp done
      exact ⟨_, writeFile_eq_ok.mpr ⟨place, hl, free, rfl⟩⟩

theorem Workbench.Holds.accepts (h : w.Holds base s)
    (absolute : w.session.layout.output.isAbsolute = true) :
    w.files.Accepts (w.outputOf s) := by
  obtain ⟨files, -, -, read⟩ := h
  obtain ⟨place, found⟩ := readText_eq_ok.mp read
  exact accepts_of_file (.refl _) (Layout.outputFor_isAbsolute absolute _) found

theorem recorded_newGeneration (base : Workbench) :
    Recorded base [] base.newGeneration where
  later := ⟨rfl, rfl, .refl⟩
  marks := ⟨Cache.distinct_empty, by simp, .nil⟩
  sources x s h := by simp [Workbench.state, Workbench.newGeneration, Workbench.modifySession] at h
  accounted s h := by
    have known := h.1
    simp [Workbench.state, Workbench.newGeneration, Workbench.modifySession] at known

theorem knows_of_not_listed {paths : List Path} (mem : p ∈ paths)
    (absent : ∀ e, (p, e) ∉ (w.compileAll paths).1) : (w.compileAll paths).2.Knows p := by
  induction paths generalizing w with
  | nil => simp at mem
  | cons q paths ih =>
    rw [compileAll_cons] at absent ⊢
    simp only [List.mem_append, not_or] at absent
    rcases List.mem_cons.mp mem with rfl | mem
    · refine knows_compileAll ((knows_quiet (quiet_next w p)).mpr ?_)
      cases hr : (w.compile p).1 with
      | error e =>
        have first := (absent e).1
        simp [hr] at first
      | ok s => exact ⟨s, compile_known hr⟩
    · exact ih mem fun e => (absent e).2

theorem Recorded.holds_iff (absolute : base.session.layout.output.isAbsolute = true)
    (h : Recorded base P w) (stores : w.Stores s)
    (alone : ∀ t, w.Stores t → w.Shares s t → s.source.same t.source = true) :
    w.Holds base s ↔ ∃ u, Compile.write s w = .ok ⟨⟩ u := by
  rw [← accepts_iff_write]
  constructor
  · exact fun holds => holds.accepts (h.later.layout ▸ absolute)
  · intro accepts
    cases h.accounted s stores with
    | held holds => exact holds
    | refused refused => exact absurd accepts refused
    | @shared t ht ne shares => simp [alone t ht shares] at ne

theorem Generation.good_of_ok {S T : Place} (sound : base.Sound S T) (h : Generation T base w)
    (hp : Admits T p) (answered : (w.compile p).1 = .ok s) : Good base.newGeneration p := by
  have outcome := compile_outcome sound.setting (h.settled sound) hp
  rw [compile_run] at answered
  generalize within (w.files.fileCount + 2) p w = r at outcome answered
  cases outcome with
  | ok compiles => exact compiles.good
  | error => simp at answered
  | fault => simp at answered

/-- A template that a batch does not list has its output exactly if that output can be written.
Within a generation an error that is not one of writing is final; a document that was stored
before it failed to be written is answered nevertheless. -/
theorem compileBatch_report (absolute : base.session.layout.output.isAbsolute = true) :
    (∀ paths report v, base.compileBatch paths = (report, v) →
      (∀ s t, v.Stores s → v.Stores t → v.Shares s t → s.source.same t.source = true) →
      ∀ p ∈ paths, p ∉ report.failing → ∃ s, v.state p = .known s ∧
        (s.isExported = true → (v.Holds base s ↔ ∃ u, Compile.write s v = .ok ⟨⟩ u))) ∧
    (∀ S T, base.Sound S T → ∀ w w' p e, Generation T base w → Generation T base w' →
      Admits T p → (w.compile p).1 = .error e → ¬ base.session.layout.OutputFault e →
      ∀ s, (w'.compile p).1 ≠ .ok s) ∧
    ∀ (w : Workbench) p e s, (w.compile p).1 = .error e → (w.compile p).2.state p = .known s →
      ((w.compile p).2.compile p).1 = .ok s := by
  refine ⟨?_, ?_, ?_⟩
  · intro paths report v run alone p mem absent
    obtain ⟨rfl, reached⟩ := Prod.mk.inj run
    have recorded : Recorded base [] v := by
      rw [← reached]
      exact (Recorded.steady absolute).compileAll (recorded_newGeneration base)
        (fun _ _ => trivial) fun _ _ _ => id
    obtain ⟨s, hs⟩ : v.Knows p := by
      rw [← reached]
      exact knows_of_not_listed mem fun e listed => absent (BatchReport.mem_failing.mpr ⟨e, listed⟩)
    refine ⟨s, hs, fun exported => ?_⟩
    have known : v.state s.source = .known s :=
      (Cache.state_congr (recorded.sources p s hs)).trans hs
    exact recorded.holds_iff absolute ⟨known, exported⟩ fun t => alone s t ⟨known, exported⟩
  · intro S T sound w w' p e hw hw' hp failed writing s answered
    exact (hw.settled sound).bad_of_error sound.setting hp failed writing
      (hw'.good_of_ok sound hp answered)
  · intro w p e s _ hs
    rw [compile_run, within_succ_run, hs]

/-! ## An output in whose place stands a directory -/

/-- Templates `a`, whose output is a directory, `b` that includes `a`, and `c` that includes
itself. -/
def refusedOutput : Workbench where
  session := .start ⟨⟨"/src"⟩, ⟨"/out"⟩⟩ none none false
  files := ⟨[], [(["src"], .directory), (["src", "a.yml"], .file (.text "title: a")),
    (["src", "b.yml"], .file (.text "$IMPORT:\n  type: include\n  path: a")),
    (["src", "c.yml"], .file (.text "$IMPORT:\n  type: include\n  path: c")),
    (["out"], .directory), (["out", "a.json"], .directory)]⟩
  log := []

theorem refusedOutput_sound : refusedOutput.Sound ["src"] ["out"] where
  trees := ⟨by decide, by decide, by decide, by decide⟩
  files := .ofEntries (by decide) (by decide)
  root := by decide
  docs _ h := by simp [refusedOutput, Session.start] at h

/-- The batch of `b` and `a`. -/
def refusedBatch : BatchReport × Workbench :=
  refusedOutput.compileBatch [⟨"/src/b.yml"⟩, ⟨"/src/a.yml"⟩]

theorem refusedBatch_stores (h : refusedBatch.2.Stores s) :
    Path.same ⟨"/src/a.yml"⟩ s.source = true := by
  have entries : refusedBatch.2.session.cache.entries.map Prod.fst = [⟨"/src/a.yml"⟩] := by
    decide +kernel
  obtain ⟨q, mem, same⟩ := Cache.mem_of_known h.1
  have mem := List.mem_map_of_mem (f := Prod.fst) mem
  rw [entries] at mem
  obtain rfl := List.mem_singleton.mp mem
  exact same

theorem refusedBatch_alone (hs : refusedBatch.2.Stores s) (ht : refusedBatch.2.Stores t) :
    s.source.same t.source = true := by
  rw [← Path.same_congr (Path.same_iff.mp (refusedBatch_stores hs))]
  exact refusedBatch_stores ht

theorem refusedBatch_output (h : refusedBatch.2.state ⟨"/src/a.yml"⟩ = .known s) :
    s.isExported = true ∧ refusedBatch.2.files.isFile (refusedBatch.2.outputOf s) = false := by
  have shown : ∀ s ∈ (refusedBatch.2.compile ⟨"/src/a.yml"⟩).1.toOption,
      s.isExported = true ∧ refusedBatch.2.files.isFile (refusedBatch.2.outputOf s) = false := by
    decide +kernel
  rw [compile_of_known h] at shown
  exact shown s rfl

/-- The batch does not list `a`, which lacks its output; the cycle of `c` stays an error. -/
theorem compileBatch_report_refusedOutput :
    (⟨"/src/a.yml"⟩ ∉ refusedBatch.1.failing ∧ ∃ s,
      refusedBatch.2.state ⟨"/src/a.yml"⟩ = .known s ∧ s.isExported = true ∧
        ¬ refusedBatch.2.Holds refusedOutput s ∧
          ¬ ∃ u, Compile.write s refusedBatch.2 = .ok ⟨⟩ u) ∧
    ∀ s, ((refusedOutput.newGeneration.compile ⟨"/src/c.yml"⟩).2.compile ⟨"/src/c.yml"⟩).1 ≠
      .ok s := by
  obtain ⟨batch, final, -⟩ := compileBatch_report
    (by decide : refusedOutput.session.layout.output.isAbsolute = true)
  have absent : ⟨"/src/a.yml"⟩ ∉ refusedBatch.1.failing := by decide +kernel
  have c : Admits ["out"] ⟨"/src/c.yml"⟩ := ⟨["src", "c.yml"], by decide, by decide, by decide⟩
  constructor
  · obtain ⟨s, known, holds⟩ :=
      batch [⟨"/src/b.yml"⟩, ⟨"/src/a.yml"⟩] _ _ (Prod.eta refusedBatch).symm
      (fun s t hs ht _ => refusedBatch_alone hs ht) ⟨"/src/a.yml"⟩ (by decide) absent
    obtain ⟨exported, missing⟩ := refusedBatch_output known
    have lost : ¬ refusedBatch.2.Holds refusedOutput s := by
      rintro ⟨files, -, -, read⟩
      obtain ⟨place, found⟩ := readText_eq_ok.mp read
      simp [isFile_iff.mpr ⟨place, _, found⟩] at missing
    exact ⟨absent, s, known, exported, lost, mt (holds exported).mpr lost⟩
  · cases failed : (refusedOutput.newGeneration.compile ⟨"/src/c.yml"⟩).1 with
    | ok s =>
      have fails :
          (refusedOutput.newGeneration.compile ⟨"/src/c.yml"⟩).1.toOption.isNone = true := by
        decide +kernel
      simp [failed, Except.toOption] at fails
    | error e =>
      have faultless : refusedOutput.session.layout.Faultless
        (refusedOutput.newGeneration.compile ⟨"/src/c.yml"⟩).1 := by decide +kernel
      exact final _ _ refusedOutput_sound _ _ _ e .start (.compile .start c) c failed
        (faultless e failed)

end SchemaLoom
