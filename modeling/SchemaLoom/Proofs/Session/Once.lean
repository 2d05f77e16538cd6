import SchemaLoom.Proofs.Session.Residue
import SchemaLoom.Proofs.Session.Transparency
import SchemaLoom.Proofs.Session.Visits

/-!
# Every template once

A document that was finished stays stored until the next generation. So no template is finished
twice in a generation, however imports lead to it: it is answered from what is stored, whatever
became of its file meanwhile, and nothing else happens. The counts of a batch are those of the
documents that were finished and of the outputs that were written.
-/

namespace SchemaLoom

open Compile FileSystem

variable {base w v u : Workbench} {p q x : Path} {s t : CompiledSchema} {n m : Nat}
  {P paths : List Path}
  {F W : List CompiledSchema} {outputs : List Output}

/-! ## A generation -/

/-- What may become of a workbench in a generation: templates are compiled, and anything happens to
files and session that leaves alone what is stored. -/
inductive Proceeds (w : Workbench) : Workbench → Prop where
  | refl : Proceeds w w
  | compile {v : Workbench} (p : Path) : Proceeds w v → Proceeds w (v.compile p).2
  | edit {v u : Workbench} : Proceeds w v → u.session.cache = v.session.cache → Proceeds w u

theorem records_steady : Steady (fun _ => True) (fun _ => False)
    fun P w => ∃ F, w.session.cache.Records F P :=
  Steady.ofCache (J := fun P c _ => ∃ F, c.Records F P)
    (fun ⟨F, h⟩ unknown => ⟨F, h.begin_ unknown⟩) (fun h => h) (fun h => h)
    (fun ⟨F, h⟩ => ⟨F, h.abandon⟩) fun ⟨_, h⟩ =>
      ⟨⟨_, h.finish⟩, _, h.finish.late (Cache.state_finish_self (Path.same_self _))⟩

theorem Proceeds.records (h : Proceeds base.newGeneration w) :
    ∃ F, w.session.cache.Records F [] := by
  induction h with
  | refl => exact ⟨[], .empty⟩
  | compile p _ ih => exact records_steady.compile (p := p) trivial ih
  | edit _ same ih => rwa [same]

theorem Proceeds.known (h : Proceeds w v) (known : w.state x = .known s) :
    v.state x = .known s := by
  induction h with
  | refl => exact known
  | @compile v p _ ih =>
    rw [compile_reached]
    exact (within_frozen (v.files.fileCount + 2) p (by simp [ih])).1.trans ih
  | edit _ same ih => rwa [Workbench.state, same]

theorem Visits.of_known (known : w.state x = .known s) (visits : Visits n p w P (m + 1) x v) :
    within (m + 1) x v = .ok s v := by
  have frozen := (frozen_steady (w := w) (x := x) (by simp [known])).visits (B := []) trivial
    ⟨by simp, rfl, fun d => Iff.rfl⟩ visits
  exact within_of_known (frozen.2.2.1.trans known) m

/-! ## A batch -/

/-- The documents `F` were finished since a generation began and the outputs of `W` among them were
written, both in this order, when templates were compiled one after the other. -/
structure Workbench.Accounts (base : Workbench) (paths : List Path) (F W : List CompiledSchema)
    (outputs : List Output) (P : List Path) (w : Workbench) : Prop where
  records : w.session.cache.Records F P
  emits : base.Emits paths outputs w
  executed : ∀ s ∈ F, ∃ result u, base.Executes paths s.source result u ∧
    s.document = result.stripDirectives ∧ s.isExported = !isInternal result
  written : W.Sublist F
  exported : ∀ s ∈ W, s.isExported = true
  paths : outputs.map Output.path = W.map fun s => base.session.layout.outputFor s.source

theorem Workbench.Accounts.unwritten {Q : List Path} (h : base.Accounts paths F W outputs P w)
    (settings : w.SameSettings v) (written : v.session.written = w.session.written)
    (files : v.files = w.files) (records : v.session.cache.Records F Q) :
    base.Accounts paths F W outputs Q v :=
  { h with records := records, emits := h.emits.unwritten settings written files }

/-- Storing and writing a document finishes it once and writes it at most once. -/
theorem Workbench.Accounts.keep (h : base.Accounts paths F W outputs (s.source :: P) v)
    {result : Json} (executes : base.Executes paths s.source result v)
    (stripped : s.document = result.stripDirectives)
    (internal : s.isExported = !isInternal result) :
    (∀ u, Compile.keep s v = .ok ⟨⟩ u → ∃ F W outputs, base.Accounts paths F W outputs P u) ∧
      ∀ e u, Compile.keep s v = .error e u →
        ∃ F W outputs, base.Accounts paths F W outputs P (u.unmarked s.source) := by
  have finished : (v.finished s).session.cache.Records (F ++ [s]) P := h.records.finish
  have more : W.Sublist (F ++ [s]) := h.written.trans (List.sublist_append_left F [s])
  obtain ⟨diagnostics, written, session⟩ := keep_session s v
  have executed : ∀ t ∈ F ++ [s], ∃ result u, base.Executes paths t.source result u ∧
      t.document = result.stripDirectives ∧ t.isExported = !isInternal result := by
    intro t mem
    rcases List.mem_append.mp mem with mem | mem
    · exact h.executed t mem
    · exact List.mem_singleton.mp mem ▸ ⟨result, v, executes, stripped, internal⟩
  obtain ⟨good, bad⟩ := h.emits.keep (executes.sifts stripped)
  constructor
  · intro u run
    rw [run, reached_ok] at session
    have records : u.session.cache.Records (F ++ [s]) P := by rwa [session]
    rcases good u run with ⟨exported, emits⟩ | ⟨-, emits⟩
    · refine ⟨F ++ [s], W ++ [s], _, records, emits, executed,
        h.written.append (List.Sublist.refl _),
        fun t mem => ?_, by simp [h.paths, Workbench.outputBy]⟩
      rcases List.mem_append.mp mem with mem | mem
      · exact h.exported t mem
      · exact List.mem_singleton.mp mem ▸ exported
    · exact ⟨F ++ [s], W, outputs, records, emits, executed, more, h.exported, h.paths⟩
  · intro e u run
    rw [run, reached_error] at session
    have records : u.session.cache.Records (F ++ [s]) P := by rwa [session]
    have known : u.session.cache.state s.source = .known s := by
      rw [session]
      exact state_finished_self v s
    exact ⟨F ++ [s], W, outputs, records.late known,
      (bad e u run).unwritten ⟨rfl, rfl, rfl, rfl⟩ rfl rfl, executed, more, h.exported, h.paths⟩

theorem accounts_guided (base : Workbench) (paths : List Path) :
    Guided (base.Visited paths) (fun _ => True) (fun _ => False)
      fun P w => ∃ F W outputs, base.Accounts paths F W outputs P w where
  finds _ := finds_any _
  quiet := by
    rintro P w v ⟨F, W, outputs, h⟩ quiet
    refine ⟨F, W, outputs, { h with records := ?_, emits := h.emits.quiet quiet }⟩
    obtain ⟨-, diagnostics, session⟩ := quiet
    rw [session]
    exact h.records
  marked := by
    rintro P w p - ⟨F, W, outputs, h⟩ unknown
    exact ⟨F, W, outputs, h.unwritten ⟨rfl, rfl, rfl, rfl⟩ rfl rfl (h.records.begin_ unknown)⟩
  forgotten := by
    rintro P w p - ⟨F, W, outputs, h⟩
    exact ⟨F, W, outputs, h.unwritten ⟨rfl, rfl, rfl, rfl⟩ rfl rfl h.records⟩
  linked := by
    rintro P w p d - - ⟨F, W, outputs, h⟩
    exact ⟨F, W, outputs, h.unwritten ⟨rfl, rfl, rfl, rfl⟩ rfl rfl h.records⟩
  unmarked := by
    rintro P w p - - ⟨F, W, outputs, h⟩
    exact .inr ⟨F, W, outputs, h.unwritten ⟨rfl, rfl, rfl, rfl⟩ rfl rfl h.records.abandon⟩
  keep := by
    rintro P m w v s document - visited unknown - read run ⟨F, W, outputs, h⟩
    obtain ⟨result, executes, stripped, internal⟩ :=
      Workbench.executes_of_expanded visited unknown read run
    obtain ⟨good, bad⟩ := h.keep executes stripped internal
    exact ⟨good, fun e u failed => .inr (bad e u failed)⟩

/-- The documents that a batch finished and the outputs that it wrote, none of them twice, and its
counts of them. -/
structure Workbench.Tallies (base : Workbench) (paths : List Path) (F W : List CompiledSchema)
    (outputs : List Output) : Prop where
  accounts : base.newGeneration.Accounts paths F W outputs [] (base.compileBatch paths).2
  once : F.Pairwise fun s t => s.source.same t.source = false
  writtenOnce : W.Pairwise fun s t => s.source.same t.source = false
  compiled : (base.compileBatch paths).1.compiled = F.length
  writes : (base.compileBatch paths).1.written = W.length

theorem compileBatch_tallies (base : Workbench) (paths : List Path) :
    ∃ F W outputs, base.Tallies paths F W outputs := by
  have start : ∃ F W outputs, base.newGeneration.Accounts paths F W outputs [] base.newGeneration :=
    ⟨[], [], [], .empty, .refl _ _, by simp, .slnil, by simp, rfl⟩
  obtain ⟨F, W, outputs, accounts⟩ : ∃ F W outputs,
      base.newGeneration.Accounts paths F W outputs [] (base.compileBatch paths).2 :=
    (accounts_guided base.newGeneration paths).compileAll (Workbench.follows_visited _ paths)
      (fun _ => Workbench.visited_turn) start (fun _ _ => trivial) fun _ _ _ => id
  have once := accounts.records.once
  refine ⟨F, W, outputs, accounts, once, once.sublist accounts.written,
    accounts.records.compiled, ?_⟩
  have count := accounts.emits.count
  have zero : base.newGeneration.session.written = 0 := rfl
  have same := congrArg List.length accounts.paths
  rw [List.length_map, List.length_map] at same
  rw [zero, Nat.zero_add, same] at count
  exact count

/-! ## At most one compilation -/

/-- Within a generation every template is finished at most once. From then on it is answered with
the same document and nothing else happens, in a call as well as on behalf of others. A batch counts
the templates that it finished and the outputs that it wrote, each at most once. -/
theorem compiled_once (base : Workbench) :
    (∀ w, Proceeds base.newGeneration w → ∃ F, w.session.cache.Records F [] ∧
      (F.Pairwise fun s t => s.source.same t.source = false) ∧ w.session.cache.compiled = F.length ∧
      ∀ s ∈ F, ∀ x, s.source.same x = true → ∀ v, Proceeds w v → v.compile x = (.ok s, v) ∧
        ∀ n p P m u, Visits n p v P (m + 1) x u → within (m + 1) x u = .ok s u) ∧
    (∀ (w : Workbench) x s, (w.compile x).1 = .ok s →
      ∀ v, Proceeds (w.compile x).2 v → v.compile x = (.ok s, v)) ∧
    ∀ paths, ∃ F W outputs, base.Tallies paths F W outputs := by
  refine ⟨fun w generation => ?_, fun w x s run v later => ?_, compileBatch_tallies base⟩
  · obtain ⟨F, records⟩ := generation.records
    refine ⟨F, records, records.once, records.compiled, fun s mem x same v later => ?_⟩
    have known : v.state x = .known s := later.known ((records.known_iff x s).mpr ⟨mem, same⟩)
    exact ⟨compile_of_known known, fun n p P m u visits => visits.of_known known⟩
  · exact compile_of_known (later.known (compile_known run))

/-- Once `b` was compiled, it and the imported `a` are answered even though all files are gone, and
a batch of both finishes and writes two documents. -/
theorem compiled_once_threeTemplates :
    ∃ s v, threeTemplates.newGeneration.compile ⟨"/src/b.yml"⟩ = (.ok s, v) ∧
      ({ v with files := ⟨[], []⟩ } : Workbench).compile ⟨"/src/b.yml"⟩ =
        (.ok s, { v with files := ⟨[], []⟩ }) ∧
      (∃ F : List CompiledSchema, F.length = 2 ∧
        (F.Pairwise fun s t => s.source.same t.source = false) ∧
        ∀ t ∈ F, ({ v with files := ⟨[], []⟩ } : Workbench).compile t.source =
          (.ok t, { v with files := ⟨[], []⟩ })) ∧
      ∃ F W outputs, threeTemplates.Tallies [⟨"/src/b.yml"⟩, ⟨"/src/a.yml"⟩] F W outputs ∧
        F.length = 2 ∧ W.length = 2 := by
  obtain ⟨records, later, batches⟩ := compiled_once threeTemplates
  have compiles : (threeTemplates.newGeneration.compile ⟨"/src/b.yml"⟩).1.toOption.isSome = true ∧
      (threeTemplates.newGeneration.compile ⟨"/src/b.yml"⟩).2.session.cache.compiled = 2 := by
    decide +kernel
  have counts : (threeTemplates.compileBatch [⟨"/src/b.yml"⟩, ⟨"/src/a.yml"⟩]).1.compiled = 2 ∧
      (threeTemplates.compileBatch [⟨"/src/b.yml"⟩, ⟨"/src/a.yml"⟩]).1.written = 2 := by
    decide +kernel
  have records := records _ (.compile ⟨"/src/b.yml"⟩ .refl)
  have later := later threeTemplates.newGeneration ⟨"/src/b.yml"⟩
  generalize threeTemplates.newGeneration.compile ⟨"/src/b.yml"⟩ = run at compiles later records
  obtain ⟨r, v⟩ := run
  obtain ⟨s, rfl⟩ := exists_ok_of_isSome compiles.1
  refine ⟨s, v, rfl, later s rfl _ (.edit .refl rfl), ?_, ?_⟩
  · obtain ⟨F, -, once, compiled, again⟩ := records
    refine ⟨F, compiled.symm.trans compiles.2, once, fun t mem => ?_⟩
    have gone : Proceeds v { v with files := ⟨[], []⟩ } := .edit .refl rfl
    exact (again t mem t.source (Path.same_self _) _ gone).1
  · obtain ⟨F, W, outputs, tallies⟩ := batches [⟨"/src/b.yml"⟩, ⟨"/src/a.yml"⟩]
    exact ⟨F, W, outputs, tallies, tallies.compiled.symm.trans counts.1,
      tallies.writes.symm.trans counts.2⟩

end SchemaLoom
