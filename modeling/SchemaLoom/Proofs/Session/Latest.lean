import SchemaLoom.Proofs.Session.Once
import SchemaLoom.Proofs.Session.Outputs
import SchemaLoom.Proofs.Session.Reports

/-!
# The latest document of an output

Nothing keeps two templates from having one output. While no write fails, the output of a document
that was finished holds its text until another document with the same output is finished: the latest
of them has it. Documents with other outputs leave it alone, since the place of one is never a
directory of the other.
-/

namespace SchemaLoom

open SchemaLoom.Path FileSystem Compile

variable {S T : Place} {base w v : Workbench} {P paths : List Path} {p : Path}
  {F after : List CompiledSchema} {s t : CompiledSchema}

/-- No exported document of a list has the output of a template. -/
def Layout.Unclaimed (l : Layout) (p : Path) (later : List CompiledSchema) : Prop :=
  ∀ t ∈ later, t.isExported = true → (l.outputFor t.source).same (l.outputFor p) = false

instance (l : Layout) (p : Path) (later : List CompiledSchema) : Decidable (l.Unclaimed p later) :=
  inferInstanceAs (Decidable (∀ t ∈ later, _))

/-- A document is what the expansion of its template made of it, when nothing but outputs had been
written. -/
def Workbench.Expands (T : Place) (base : Workbench) (s : CompiledSchema) : Prop :=
  ∃ length document w v, Unchanged T base w ∧
    base.files.readTemplate s.source = .ok document ∧
    expanded (within length) (w.subject s.source) document
      (w.cleared (w.subject s.source)) = .ok s v

theorem Workbench.Expands.congr {base : Workbench} (h : base.Expands T s)
    (wrote : Unchanged T w base) (files : base.files = w.files) : w.Expands T s := by
  obtain ⟨length, document, u, v, before, read, run⟩ := h
  exact ⟨length, document, u, v, wrote.trans before, files ▸ read, run⟩

/-- The documents `F` were finished since a workbench, and nothing but outputs was written. -/
structure Finishing (T : Place) (base : Workbench) (F : List CompiledSchema) (P : List Path)
    (w : Workbench) : Prop where
  unchanged : Unchanged T base w
  records : w.session.cache.Records F P
  expands : ∀ s ∈ F, Admits T s.source ∧ base.Expands T s

namespace Finishing

theorem unwritten (h : Finishing T base F P w) {Q : List Path} (unchanged : Unchanged T base v)
    (records : v.session.cache.Records F Q) : Finishing T base F Q v :=
  ⟨unchanged, records, h.expands⟩

theorem quiet (h : Finishing T base F P w) (hq : Quiet w v) : Finishing T base F P v := by
  refine h.unwritten (h.unchanged.quiet hq) ?_
  obtain ⟨-, diagnostics, session⟩ := hq
  rw [session]
  exact h.records

theorem concat (h : Finishing T base F (s.source :: P) w) (hs : Admits T s.source)
    (expands : base.Expands T s) (unchanged : Unchanged T base v)
    (records : v.session.cache.Records (F ++ [s]) P) : Finishing T base (F ++ [s]) P v := by
  refine ⟨unchanged, records, fun t mem => ?_⟩
  rcases List.mem_append.mp mem with mem | mem
  · exact h.expands t mem
  · exact List.mem_singleton.mp mem ▸ ⟨hs, expands⟩

/-- Storing and writing a document finishes it, whether or not it can be written. -/
theorem keep (sound : base.Sound S T) (h : Finishing T base F (s.source :: P) w)
    (hs : Admits T s.source) {document : Json}
    (read : base.files.readTemplate s.source = .ok document) (expands : base.Expands T s) :
    (∀ u, Compile.keep s w = .ok ⟨⟩ u → Finishing T base (F ++ [s]) P u) ∧
      ∀ e u, Compile.keep s w = .error e u →
        Finishing T base (F ++ [s]) P (u.unmarked s.source) := by
  have wrote := (sound.toRooted.kept h.unchanged hs read).1
  obtain ⟨diagnostics, count, session⟩ := keep_session s w
  have finished : (w.finished s).session.cache.Records (F ++ [s]) P := h.records.finish
  constructor
  · intro u run
    rw [run, reached_ok] at wrote session
    exact h.concat hs expands wrote (by rwa [session])
  · intro e u run
    rw [run, reached_error] at wrote session
    have records : u.session.cache.Records (F ++ [s]) P := by rwa [session]
    have known : u.session.cache.state s.source = .known s := by
      rw [session]
      exact state_finished_self w s
    exact h.concat hs expands (wrote.modifySession rfl rfl rfl rfl) (records.late known)

theorem steady (sound : base.Sound S T) : Steady (Admits T) (fun _ => False)
    fun P w => ∃ F, Finishing T base F P w where
  finds := fun ⟨_, h⟩ => (sound.of_unchanged h.unchanged).finds
  quiet := fun ⟨F, h⟩ hq => ⟨F, h.quiet hq⟩
  marked := fun _ ⟨F, h⟩ unknown =>
    ⟨F, h.unwritten (h.unchanged.modifySession rfl rfl rfl rfl) (h.records.begin_ unknown)⟩
  forgotten := fun _ ⟨F, h⟩ =>
    ⟨F, h.unwritten (h.unchanged.modifySession rfl rfl rfl rfl) h.records⟩
  linked := fun _ _ ⟨F, h⟩ => ⟨F, h.unwritten (h.unchanged.modifySession rfl rfl rfl rfl) h.records⟩
  unmarked := fun _ _ ⟨F, h⟩ =>
    .inr ⟨F, h.unwritten (h.unchanged.modifySession rfl rfl rfl rfl) h.records.abandon⟩
  keep := by
    rintro P w v p s document hp ⟨_, hw⟩ read ⟨F, h⟩ rfl ⟨length, run⟩
    have read := (sound.toRooted.readTemplate hw.unchanged hp).mp read
    obtain ⟨good, bad⟩ := h.keep sound hp read ⟨length, document, w, v, hw.unchanged, read, run⟩
    exact ⟨fun u hu => ⟨_, good u hu⟩, fun e u hu => .inr ⟨_, bad e u hu⟩⟩

end Finishing

/-- The documents `F` were finished while no write failed, and the outputs of those that are the
latest for theirs hold their texts. -/
structure Mirrors (T : Place) (base : Workbench) (F : List CompiledSchema) (P : List Path)
    (w : Workbench) : Prop where
  finishing : Finishing T base F P w
  places : ∀ s ∈ F, s.isExported = true → ∃ o, (base.session.layout.outputFor s.source).LeadsTo o
  latest : ∀ before s after, F = before ++ s :: after → s.isExported = true →
    base.session.layout.Unclaimed s.source after →
      ∃ o, (base.session.layout.outputFor s.source).LeadsTo o ∧
        w.files.entry? o = some (.file (.text (base.textOf s)))

theorem FileSystem.Written.keeps_other {place q : Place} {text : String} {fs fs' : FileSystem}
    {contents : Contents} (h : Written place text fs fs')
    (there : fs.entry? q = some (.file contents)) (ne : q ≠ place) :
    fs'.entry? q = some (.file contents) := by
  rw [h.kept q, there]
  intro above
  rcases h.before q above ne with free | directory
  · simp [free] at there
  · simp [directory] at there

namespace Mirrors

theorem latest_concat {Q : List CompiledSchema → CompiledSchema → List CompiledSchema → Prop}
    (old : ∀ before s after, F = before ++ s :: after → Q before s (after ++ [t]))
    (new : Q F t []) : ∀ before s after, F ++ [t] = before ++ s :: after → Q before s after := by
  intro before s after split
  rcases List.eq_nil_or_concat after with rfl | ⟨after, last, rfl⟩
  · obtain ⟨rfl, same⟩ := List.append_inj' split rfl
    exact List.singleton_inj.mp same ▸ new
  · rw [List.concat_eq_append, ← List.cons_append, ← List.append_assoc] at split
    obtain ⟨rfl, same⟩ := List.append_inj' split rfl
    rw [List.concat_eq_append, ← List.singleton_inj.mp same]
    exact old before s after rfl

theorem unwritten (h : Mirrors T base F P w) {Q : List Path} (finishing : Finishing T base F Q v)
    (files : v.files = w.files) : Mirrors T base F Q v :=
  ⟨finishing, h.places, files ▸ h.latest⟩

/-- One more document is finished, and its output is written. -/
theorem write (h : Mirrors T base F (s.source :: P) w) (exported : s.isExported = true) {o : Place}
    (place : (base.session.layout.outputFor s.source).LeadsTo o)
    (written : Written o (base.textOf s) w.files v.files)
    (finishing : Finishing T base (F ++ [s]) P v) : Mirrors T base (F ++ [s]) P v := by
  refine ⟨finishing, fun t mem kept => ?_,
    latest_concat (fun before t after split kept unclaimed => ?_)
    fun _ _ => ⟨o, place, written.file⟩⟩
  · rcases List.mem_append.mp mem with mem | mem
    · exact h.places t mem kept
    · exact List.mem_singleton.mp mem ▸ ⟨o, place⟩
  · obtain ⟨q, leads, file⟩ := h.latest before t after split kept fun x mem =>
      unclaimed x (List.mem_append_left _ mem)
    refine ⟨q, leads, written.keeps_other file ?_⟩
    rintro rfl
    have apart := unclaimed s (List.mem_append_right _ (List.mem_singleton_self s)) exported
    rw [(place.same_iff leads).mpr rfl] at apart
    cases apart

theorem store (h : Mirrors T base F (s.source :: P) w) (internal : s.isExported = false)
    (files : v.files = w.files) (finishing : Finishing T base (F ++ [s]) P v) :
    Mirrors T base (F ++ [s]) P v := by
  have unwritten : ¬ s.isExported = true := by simp [internal]
  refine ⟨finishing, fun t mem kept => ?_,
    latest_concat (fun before t after split kept unclaimed => ?_)
    fun kept => absurd kept unwritten⟩
  · rcases List.mem_append.mp mem with mem | mem
    · exact h.places t mem kept
    · exact absurd (List.mem_singleton.mp mem ▸ kept) unwritten
  · rw [files]
    exact h.latest before t after split kept fun x mem => unclaimed x (List.mem_append_left _ mem)

section

variable (sound : base.Sound S T)
include sound

theorem keep (h : Mirrors T base F (s.source :: P) w) (hs : Admits T s.source) {document : Json}
    (read : base.files.readTemplate s.source = .ok document) (expands : base.Expands T s)
    (run : Compile.keep s w = .ok ⟨⟩ v) : Mirrors T base (F ++ [s]) P v := by
  have finishing := (h.finishing.keep sound hs read expands).1 v run
  rw [keep_run] at run
  split at run
  · rename_i exported
    have stored : Unchanged T base (w.finished s) :=
      h.finishing.unchanged.modifySession rfl rfl rfl rfl
    obtain ⟨a, c, hc, hend⟩ := sound.toRooted.output hs read
    have writes := write_run s (w.finished s)
    rw [run] at writes
    have output : (w.finished s).outputOf s = base.session.layout.outputFor s.source := by
      rw [Workbench.outputOf, stored.layout]
    have text : (w.finished s).textOf s = base.textOf s :=
      sound.textOf stored s
    cases writes with
    | written ready quiet done =>
      rw [output] at ready done
      rw [text] at done
      rcases hend with rfl | ⟨n, rfl⟩
      · exact absurd done (writeFile_up hc)
      · have place : (base.session.layout.outputFor s.source).LeadsTo (T ++ a ++ [n]) := by
          simpa [LeadsTo] using hc
        exact h.write exported place (written_of_ready place ready done) finishing
  · rename_i internal
    obtain rfl : w.finished s = v := by simpa using run
    exact h.store (by simpa using internal) rfl finishing

/-- Every step of a compilation in which no write fails keeps the outputs of the latest. -/
theorem steady : Steady (Admits T) base.session.layout.OutputFault
    fun P w => ∃ F, Mirrors T base F P w where
  finds := fun ⟨_, h⟩ => (sound.of_unchanged h.finishing.unchanged).finds
  quiet := fun ⟨F, h⟩ hq => ⟨F, h.unwritten (h.finishing.quiet hq) hq.1⟩
  marked := fun _ ⟨F, h⟩ unknown => ⟨F, h.unwritten (h.finishing.unwritten
    (h.finishing.unchanged.modifySession rfl rfl rfl rfl) (h.finishing.records.begin_ unknown)) rfl⟩
  forgotten := fun _ ⟨F, h⟩ => ⟨F, h.unwritten (h.finishing.unwritten
    (h.finishing.unchanged.modifySession rfl rfl rfl rfl) h.finishing.records) rfl⟩
  linked := fun _ _ ⟨F, h⟩ => ⟨F, h.unwritten (h.finishing.unwritten
    (h.finishing.unchanged.modifySession rfl rfl rfl rfl) h.finishing.records) rfl⟩
  unmarked := fun _ _ ⟨F, h⟩ => .inr ⟨F, h.unwritten (h.finishing.unwritten
    (h.finishing.unchanged.modifySession rfl rfl rfl rfl) h.finishing.records.abandon) rfl⟩
  keep := by
    rintro P w v p s document hp ⟨_, hw⟩ read ⟨F, h⟩ rfl ⟨length, run⟩
    have wrote := hw.finishing.unchanged
    have read := (sound.toRooted.readTemplate wrote hp).mp read
    refine ⟨fun u hu => ⟨F ++ [s], h.keep sound hp read ?_ hu⟩, fun e u hu => .inl ?_⟩
    · exact ⟨length, document, w, v, wrote, read, run⟩
    · exact (sound.toRooted.kept h.finishing.unchanged hp read).2 e u hu

end

end Mirrors

/-! ## Batches -/

theorem finishing_newGeneration (base : Workbench) :
    Finishing T base.newGeneration [] [] base.newGeneration :=
  ⟨.refl _, .empty, by simp⟩

theorem compileBatch_finishing (sound : base.Sound S T) (admitted : ∀ p ∈ paths, Admits T p) :
    ∃ F, Finishing T base.newGeneration F [] (base.compileBatch paths).2 :=
  (Finishing.steady sound.newGeneration).compileAll ⟨[], finishing_newGeneration base⟩ admitted
    fun _ _ _ => id

/-- A batch without failures finishes all its templates, and leaves the text of a document in its
output if it is the latest for it. -/
theorem compileBatch_mirrors (sound : base.Sound S T) (admitted : ∀ p ∈ paths, Admits T p)
    (ok : (base.compileBatch paths).1.failures = []) :
    ∃ F, Mirrors T base.newGeneration F [] (base.compileBatch paths).2 ∧
      ∀ p ∈ paths, ∃ s ∈ F, s.source = p := by
  have start : Mirrors T base.newGeneration [] [] base.newGeneration :=
    ⟨finishing_newGeneration base, by simp, by simp⟩
  have none : (base.newGeneration.compileAll paths).1 = [] := ok
  obtain ⟨F, mirrors⟩ := (Mirrors.steady sound.newGeneration).compileAll ⟨[], start⟩ admitted
    fun p e mem => by
      rw [none] at mem
      exact absurd mem List.not_mem_nil
  refine ⟨F, mirrors, fun p mem => ?_⟩
  obtain ⟨s, known⟩ := knows_of_not_listed (w := base.newGeneration) mem fun e listed => by
    rw [none] at listed
    exact absurd listed List.not_mem_nil
  obtain ⟨finished, same⟩ := (mirrors.finishing.records.known_iff p s).mp known
  exact ⟨s, finished, (mirrors.finishing.expands s finished).1.eq_of_same (admitted p mem) same⟩

end SchemaLoom
