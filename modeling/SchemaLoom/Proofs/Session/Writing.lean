import SchemaLoom.Proofs.FileSystem.Writing
import SchemaLoom.Proofs.Session.Steady

/-!
# Storing and writing a document

A compiled document is stored before it is written. Writing leaves what is known, and who imports
whom, as it was; it fails with a file error on the output or on the directory of the output.
-/

namespace SchemaLoom

open FileSystem

namespace Workbench

/-- The text that is written for a document as the files are now. -/
def textOf (w : Workbench) (schema : CompiledSchema) : String :=
  let resolver : Resolver := ⟨w.session.layout, w.files, schema.source⟩
  Compile.outputText w.session.isPretty (resolver.resolve schema.id schema.document).1

/-- The output of a document. -/
def outputOf (w : Workbench) (schema : CompiledSchema) : Path :=
  w.session.layout.outputFor schema.source

/-- The workbench with a document stored. -/
def finished (w : Workbench) (schema : CompiledSchema) : Workbench :=
  w.modifySession fun s => { s with cache := s.cache.finish schema }

/-- The workbench with one more output counted. -/
def counted (w : Workbench) : Workbench :=
  w.modifySession fun s => { s with written := s.written + 1 }

end Workbench

namespace Compile

variable {schema : CompiledSchema} {w v : Workbench}

/-- The ways in which writing a document ends. -/
inductive Wrote (w : Workbench) (schema : CompiledSchema) :
    EStateM.Result BuildError Workbench PUnit → Prop where
  | noDirectory {parent : Path} (cause : FileError) {v : Workbench} :
      (w.outputOf schema).parent? = some parent → Quiet w v →
      w.files.makeDirectories parent = .error cause →
      Wrote w schema (.error (.file parent cause) v)
  | noFile (cause : FileError) {v : Workbench} {files : FileSystem} :
      Ready w.files (w.outputOf schema) files → Quiet w v →
      files.writeFile (w.outputOf schema) (.text (w.textOf schema)) = .error cause →
      Wrote w schema (.error (.file (w.outputOf schema) cause) { v with files })
  | written {v : Workbench} {files files' : FileSystem} :
      Ready w.files (w.outputOf schema) files → Quiet w v →
      files.writeFile (w.outputOf schema) (.text (w.textOf schema)) = .ok files' →
      Wrote w schema (.ok ⟨⟩ { v with files := files' }.counted)

theorem write_run (schema : CompiledSchema) (w : Workbench) : Wrote w schema (write schema w) := by
  unfold write
  simp only [get_bind_run, modify_bind_run]
  generalize hd : (Resolver.resolve ⟨w.session.layout, w.files, schema.source⟩ schema.id
    schema.document).2 = diagnostics
  have quiet : Quiet w (w.recordAll diagnostics) := Uniform.quiet_recordAll w _
  have ends := writeOutput_run (w.outputOf schema) (w.textOf schema) (w.recordAll diagnostics)
  rw [quiet.1] at ends
  generalize w.recordAll diagnostics = v at quiet ends ⊢
  have output : w.session.layout.outputFor schema.source = w.outputOf schema := rfl
  have text : outputText w.session.isPretty (Resolver.resolve ⟨w.session.layout, w.files,
      schema.source⟩ schema.id schema.document).1 = w.textOf schema := rfl
  rw [bind_run, output, text]
  rcases ends with ⟨parent, cause, hp, hd, hr⟩ | ⟨files, ready, ⟨cause, hw, hr⟩ | ⟨files', hw, hr⟩⟩
  · rw [hr]
    exact .noDirectory cause hp quiet hd
  · rw [hr]
    exact .noFile cause ready quiet hw
  · rw [hr]
    exact .written ready quiet hw

/-- Of the session, writing changes diagnostics and the count of outputs. -/
theorem Wrote.session {r : EStateM.Result BuildError Workbench PUnit} (h : Wrote w schema r) :
    ∃ diagnostics written, (reached r).session = { w.session with diagnostics, written } := by
  cases h with
  | noDirectory cause _ quiet _ =>
    obtain ⟨-, diagnostics, session⟩ := quiet
    exact ⟨diagnostics, w.session.written, session⟩
  | noFile cause _ quiet _ =>
    obtain ⟨-, diagnostics, session⟩ := quiet
    exact ⟨diagnostics, w.session.written, session⟩
  | written _ quiet _ =>
    obtain ⟨-, diagnostics, session⟩ := quiet
    refine ⟨diagnostics, w.session.written + 1, ?_⟩
    simp only [reached_ok, Workbench.counted, Workbench.modifySession]
    rw [session]

theorem keep_run (schema : CompiledSchema) (w : Workbench) :
    keep schema w = if schema.isExported then write schema (w.finished schema)
      else .ok ⟨⟩ (w.finished schema) := by
  unfold keep
  rw [bind_run_ok (modifySession_run _ w)]
  cases schema.isExported <;> rfl

theorem keep_session (schema : CompiledSchema) (w : Workbench) :
    ∃ diagnostics written, (reached (keep schema w)).session =
      { (w.finished schema).session with diagnostics, written } := by
  rw [keep_run]
  split
  · exact (write_run schema _).session
  · exact ⟨_, _, rfl⟩

theorem state_finished_self (w : Workbench) (schema : CompiledSchema) :
    (w.finished schema).state schema.source = .known schema :=
  Cache.state_finish_self (Path.same_self _)

theorem keep_ok_known {P : List Path} (h : w.session.cache.Marks (schema.source :: P))
    {done : PUnit} (run : keep schema w = .ok done v) : v.session.cache.Marks P ∧
      ∀ x s, v.state x = .known s ↔ (w.finished schema).state x = .known s := by
  obtain ⟨diagnostics, written, session⟩ := keep_session schema w
  rw [run, reached_ok] at session
  refine ⟨?_, fun x s => by rw [Workbench.state, session, Workbench.state]⟩
  rw [session]
  exact h.finish

/-- A document that could not be written stays stored. -/
theorem keep_error_known {P : List Path} (h : w.session.cache.Marks (schema.source :: P))
    {e : BuildError} (run : keep schema w = .error e v) :
    (v.unmarked schema.source).session.cache.Marks P ∧ ∀ x s,
      (v.unmarked schema.source).state x = .known s ↔ (w.finished schema).state x = .known s := by
  obtain ⟨diagnostics, written, session⟩ := keep_session schema w
  rw [run, reached_error] at session
  have cache : v.session.cache = (w.finished schema).session.cache := by rw [session]
  have self : v.session.cache.state schema.source = .known schema := by
    rw [cache]
    exact state_finished_self w schema
  have marks : v.session.cache.Marks P := by
    rw [cache]
    exact h.finish
  refine ⟨marks.abandon_known self, fun x s => ?_⟩
  have kept : (v.session.cache.abandon schema.source).state x = .known s ↔
      v.session.cache.state x = .known s := Cache.known_abandon marks.distinct (by simp [self])
  exact kept.trans (by rw [cache]; rfl)

/-! ## Marks and edges -/

/-- A property of the cache and the import graph that every step keeps. -/
theorem Steady.ofCache {J : List Path → Cache → Dependencies → Prop}
    (marked : ∀ {P c i p}, J P c i → c.state p = .unknown → J (p :: P) (c.begin_ p) i)
    (forgotten : ∀ {P c i p}, J (p :: P) c i → J (p :: P) c (i.forget p))
    (linked : ∀ {P c i p d}, J (p :: P) c i → J (p :: P) c (i.record p d))
    (abandoned : ∀ {P c i p}, J (p :: P) c i → J P (c.abandon p) i)
    (finished : ∀ {P c i schema}, J (schema.source :: P) c i →
      J P (c.finish schema) i ∧ J P ((c.finish schema).abandon schema.source) i) :
    Steady (fun _ => True) (fun _ => False) fun P w => J P w.session.cache w.session.imports where
  finds _ := finds_any _
  quiet h hq := by
    obtain ⟨-, diagnostics, session⟩ := hq
    rwa [session]
  marked _ h hs := marked h hs
  forgotten _ h := forgotten h
  linked _ _ h := linked h
  unmarked _ _ h := .inr (abandoned h)
  keep := by
    rintro P w v p schema document - - - h rfl -
    obtain ⟨diagnostics, written, session⟩ := keep_session schema v
    constructor
    · intro u hu
      rw [hu, reached_ok] at session
      rw [session]
      exact (finished h).1
    · intro e u hu
      rw [hu, reached_error] at session
      simp only [Workbench.unmarked, Workbench.modifySession]
      rw [session]
      exact .inr (finished h).2

/-- Every step keeps the entry of a template that is not unknown, and its edges. -/
theorem frozen_steady {x : Path} (h : w.state x ≠ .unknown) :
    Steady (fun _ => True) (fun _ => False)
    fun P v => (∀ q ∈ P, q.same x = false) ∧ v.state x = w.state x ∧
      ∀ d, v.session.imports.Has x d ↔ w.session.imports.Has x d := by
  have ne : ∀ {p : Path} {c : Cache}, c.state x = w.state x → c.state p = .unknown →
      p.same x = false := by
    intro p c same unknown
    rw [Bool.eq_false_iff]
    intro hp
    exact h (same ▸ Cache.state_congr hp ▸ unknown)
  exact Steady.ofCache
    (J := fun P c i => (∀ q ∈ P, q.same x = false) ∧ c.state x = w.state x ∧
      ∀ d, i.Has x d ↔ w.session.imports.Has x d)
    (fun {P c i p} hj hu => by
      refine ⟨List.forall_mem_cons.mpr ⟨ne hj.2.1 hu, hj.1⟩, ?_, hj.2.2⟩
      rw [Cache.state_begin_of_ne (ne hj.2.1 hu), hj.2.1])
    (fun {P c i p} hj => by
      refine ⟨hj.1, hj.2.1, fun d => ?_⟩
      rw [Dependencies.has_forget, hj.2.2 d]
      simp [hj.1 p List.mem_cons_self])
    (fun {P c i p d} hj => by
      refine ⟨hj.1, hj.2.1, fun e => ?_⟩
      rw [Dependencies.has_record, hj.2.2 e]
      simp [hj.1 p List.mem_cons_self])
    (fun {P c i p} hj => by
      refine ⟨fun q mem => hj.1 q (List.mem_cons_of_mem _ mem), ?_, hj.2.2⟩
      rw [Cache.state_abandon_of_ne (hj.1 p List.mem_cons_self), hj.2.1])
    (fun {P c i schema} hj => by
      have hs := hj.1 schema.source List.mem_cons_self
      have rest : ∀ q ∈ P, q.same x = false := fun q mem => hj.1 q (List.mem_cons_of_mem _ mem)
      refine ⟨⟨rest, ?_, hj.2.2⟩, rest, ?_, hj.2.2⟩
      · rw [Cache.state_finish_of_ne hs, hj.2.1]
      · rw [Cache.state_abandon_of_ne hs, Cache.state_finish_of_ne hs, hj.2.1])

/-- A compilation keeps the entry of a template that is not unknown, and its edges. -/
theorem within_frozen {x : Path} (length : Nat) (p : Path) (h : w.state x ≠ .unknown) :
    (reached (within length p w)).state x = w.state x ∧
      ∀ d, (reached (within length p w)).session.imports.Has x d ↔ w.session.imports.Has x d :=
  ((frozen_steady h).reached length (P := []) trivial ⟨by simp, rfl, fun d => Iff.rfl⟩).2

end Compile

end SchemaLoom
