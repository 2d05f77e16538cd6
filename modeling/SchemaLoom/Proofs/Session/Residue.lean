import SchemaLoom.Proofs.Directive
import SchemaLoom.Proofs.Session.Generation
import SchemaLoom.Proofs.Session.Visits

/-!
# What a session writes

The outputs that a session writes are listed in their order. Each is the document of a template
whose directives the session executed, without the entries of any directive and with its references
resolved. This holds on every workbench, whatever its cache holds and wherever imports, the registry
or substitutions took the contents from, and whether or not the compilation succeeds in the end.
-/

namespace SchemaLoom

open Compile FileSystem Ordered

/-- A document that was written. -/
structure Output where
  path : Path
  document : Json

/-- Outputs were written one after the other, into directories that were made before. -/
inductive FileSystem.Received (isPretty : Bool) (fs : FileSystem) :
    List Output → FileSystem → Prop where
  | nothing : Received isPretty fs [] fs
  | directory {outputs : List Output} {fs' fs'' : FileSystem} {p : Path} :
      Received isPretty fs outputs fs' → fs'.makeDirectories p = .ok fs'' →
      Received isPretty fs outputs fs''
  | output {outputs : List Output} {fs' fs'' : FileSystem} (o : Output) :
      Received isPretty fs outputs fs' →
      fs'.writeFile o.path (.text (outputText isPretty o.document)) = .ok fs'' →
      Received isPretty fs (outputs ++ [o]) fs''

theorem FileSystem.Received.ready {isPretty : Bool} {fs fs' fs'' : FileSystem}
    {outputs : List Output} {path : Path} (h : fs.Received isPretty outputs fs')
    (ready : Ready fs' path fs'') : fs.Received isPretty outputs fs'' := by
  cases hp : path.parent? with
  | some parent => exact h.directory (ready.made parent hp)
  | none =>
    obtain rfl := ready.rootless hp
    exact h

namespace Workbench

/-- What a session is started with is the same. -/
structure SameSettings (base w : Workbench) : Prop where
  layout : w.session.layout = base.session.layout
  registry : w.session.registry = base.session.registry
  docs : w.session.docs = base.session.docs
  isPretty : w.session.isPretty = base.session.isPretty

/-- While templates are compiled one after the other, one is asked for on the workbench `v`, with
room for a chain of `m`. -/
def Visited (base : Workbench) (paths : List Path) (m : Nat) (x : Path) (v : Workbench) : Prop :=
  ∃ turn ∈ base.turns paths, ∃ P,
    Visits (turn.2.files.fileCount + 2) turn.1 turn.2 P m x v

/-- While templates are compiled one after the other, a template that is not known yet is read, its
directives are executed and its documentation is correlated. That ends with the document `result`
on the workbench `u`. -/
def Executes (base : Workbench) (paths : List Path) (source : Path) (result : Json)
    (u : Workbench) : Prop :=
  ∃ m v document, base.Visited paths (m + 1) source v ∧ v.state source = .unknown ∧
    v.files.readTemplate source = .ok document ∧
    executed (within m) (v.subject source) document
      ((v.marked source).cleared (v.subject source)) = .ok result u

/-- An executed document without the entries of directives, and with its references resolved among
the files that are there when it is written. -/
def Sifts (base : Workbench) (paths : List Path) (o : Output) : Prop :=
  ∃ source result u, base.Executes paths source result u ∧
    o.path = base.session.layout.outputFor source ∧
    o.document = result.rewrite (Resolver.resolved ⟨base.session.layout, u.files, source⟩) id
      (only fun key => !Directive.looksLike key)

/-- What was written since a workbench, when templates were compiled one after the other. -/
structure Emits (base : Workbench) (paths : List Path) (outputs : List Output) (w : Workbench) :
    Prop where
  settings : base.SameSettings w
  count : w.session.written = base.session.written + outputs.length
  files : base.files.Received base.session.isPretty outputs w.files
  sifted : ∀ o ∈ outputs, base.Sifts paths o

end Workbench

variable {base w v u : Workbench} {paths : List Path} {outputs : List Output}

theorem Workbench.SameSettings.trans (h : base.SameSettings w) (h' : w.SameSettings v) :
    base.SameSettings v :=
  ⟨h'.layout.trans h.layout, h'.registry.trans h.registry, h'.docs.trans h.docs,
    h'.isPretty.trans h.isPretty⟩

namespace Workbench.Emits

theorem refl (base : Workbench) (paths : List Path) : base.Emits paths [] base :=
  ⟨⟨rfl, rfl, rfl, rfl⟩, rfl, .nothing, by simp⟩

theorem unwritten (h : base.Emits paths outputs w) (settings : w.SameSettings v)
    (written : v.session.written = w.session.written) (files : v.files = w.files) :
    base.Emits paths outputs v where
  settings := h.settings.trans settings
  count := written.trans h.count
  files := files ▸ h.files
  sifted := h.sifted

theorem quiet (h : base.Emits paths outputs w) (hq : Quiet w v) : base.Emits paths outputs v := by
  obtain ⟨files, diagnostics, session⟩ := hq
  apply h.unwritten _ _ files
  · exact ⟨by rw [session], by rw [session], by rw [session], by rw [session]⟩
  · rw [session]

theorem ready {path : Path} {files : FileSystem} (h : base.Emits paths outputs w)
    (made : Ready w.files path files) : base.Emits paths outputs { w with files } :=
  ⟨⟨h.settings.layout, h.settings.registry, h.settings.docs, h.settings.isPretty⟩, h.count,
    h.files.ready made, h.sifted⟩

end Workbench.Emits

/-! ## One document -/

/-- The output of a document of the recursion. -/
def Workbench.outputBy (base : Workbench) (files : FileSystem) (schema : CompiledSchema) : Output :=
  ⟨base.session.layout.outputFor schema.source,
    Resolver.resolveNode ⟨base.session.layout, files, schema.source⟩ schema.document⟩

theorem Workbench.follows_visited (base : Workbench) (paths : List Path) :
    Follows (base.Visited paths) := by
  rintro m x v d u ⟨turn, mem, P, visits⟩ unknown asks
  exact ⟨turn, mem, _, visits.ask unknown asks⟩

theorem Workbench.visited_turn {turn : Path × Workbench} (mem : turn ∈ base.turns paths) :
    base.Visited paths (turn.2.files.fileCount + 2) turn.1 turn.2 :=
  ⟨turn, mem, [], .start⟩

theorem Workbench.executes_of_expanded {m : Nat} {document : Json} {s : CompiledSchema}
    (visited : base.Visited paths (m + 1) s.source w) (unknown : w.state s.source = .unknown)
    (read : w.files.readTemplate s.source = .ok document)
    (run : expanded (within m) (w.subject s.source) document
      ((w.marked s.source).cleared (w.subject s.source)) = .ok s v) :
    ∃ result, base.Executes paths s.source result v ∧ s.document = result.stripDirectives ∧
      s.isExported = !isInternal result := by
  obtain ⟨result, run, same⟩ := executed_of_expanded run
  exact ⟨result, ⟨m, w, document, visited, unknown, read, run⟩,
    congrArg CompiledSchema.document same, congrArg CompiledSchema.isExported same⟩

theorem Workbench.Executes.sifts {s : CompiledSchema} {result : Json}
    (h : base.Executes paths s.source result v) (stripped : s.document = result.stripDirectives) :
    base.Sifts paths (base.outputBy v.files s) := by
  refine ⟨s.source, result, v, h, ?_, ?_⟩
  · rw [Workbench.outputBy]
  · rw [Workbench.outputBy, stripped]
    exact Resolver.resolveNode_stripDirectives _ result

/-- Writing a document adds its output if it succeeds, and nothing otherwise. -/
theorem Compile.Wrote.emits {schema : CompiledSchema}
    {r : EStateM.Result BuildError Workbench PUnit} (h : base.Emits paths outputs w)
    (sifts : base.Sifts paths (base.outputBy w.files schema)) (wrote : Wrote w schema r) :
    (∃ e v, r = .error e v ∧ base.Emits paths outputs v) ∨
      ∃ v, r = .ok ⟨⟩ v ∧ base.Emits paths (outputs ++ [base.outputBy w.files schema]) v := by
  cases wrote with
  | noDirectory cause _ quiet _ => exact .inl ⟨_, _, rfl, h.quiet quiet⟩
  | @noFile cause v files ready quiet _ =>
    rw [← quiet.1] at ready
    exact .inl ⟨_, _, rfl, (h.quiet quiet).ready ready⟩
  | @written v files files' ready quiet done =>
    rw [← quiet.1] at ready
    have prepared := (h.quiet quiet).ready ready
    have written : files.writeFile (base.outputBy w.files schema).path
        (.text (outputText base.session.isPretty (base.outputBy w.files schema).document)) =
          .ok files' := by
      rw [← done]
      simp only [Workbench.outputBy, Workbench.outputOf, Workbench.textOf, Resolver.resolve,
        h.settings.layout, h.settings.isPretty]
    have settings : base.SameSettings ({ v with files := files' } : Workbench).counted :=
      ⟨prepared.settings.layout, prepared.settings.registry, prepared.settings.docs,
        prepared.settings.isPretty⟩
    refine .inr ⟨_, rfl, settings, ?_, prepared.files.output _ written, ?_⟩
    · have count : v.session.written = base.session.written + outputs.length := prepared.count
      simp only [Workbench.counted, Workbench.modifySession, List.length_append,
        List.length_singleton, count]
      omega
    · intro o member
      rcases List.mem_append.mp member with member | member
      · exact h.sifted o member
      · obtain rfl := List.mem_singleton.mp member
        exact sifts

/-- Keeping a document adds its output if it is exported and can be written. -/
theorem Workbench.Emits.keep {s : CompiledSchema} (h : base.Emits paths outputs v)
    (sifts : base.Sifts paths (base.outputBy v.files s)) :
    (∀ u, Compile.keep s v = .ok ⟨⟩ u →
      s.isExported = true ∧ base.Emits paths (outputs ++ [base.outputBy v.files s]) u ∨
        s.isExported = false ∧ base.Emits paths outputs u) ∧
      ∀ e u, Compile.keep s v = .error e u → base.Emits paths outputs u := by
  have stored : base.Emits paths outputs (v.finished s) :=
    h.unwritten ⟨rfl, rfl, rfl, rfl⟩ rfl rfl
  rw [keep_run]
  split
  · rename_i exported
    rcases (write_run s _).emits stored sifts with ⟨e, u, ends, emits⟩ | ⟨u, ends, emits⟩
    · rw [ends]
      refine ⟨fun _ same => by simp at same, fun _ u' same => ?_⟩
      obtain ⟨rfl, rfl⟩ := EStateM.Result.error.inj same
      exact emits
    · rw [ends]
      refine ⟨fun u' same => ?_, fun _ _ same => by simp at same⟩
      obtain ⟨-, rfl⟩ := EStateM.Result.ok.inj same
      exact .inl ⟨exported, emits⟩
  · rename_i internal
    refine ⟨fun u same => ?_, fun _ _ same => by simp at same⟩
    obtain ⟨-, rfl⟩ := EStateM.Result.ok.inj same
    exact .inr ⟨by simpa using internal, stored⟩

/-! ## Every run -/

theorem emits_guided (base : Workbench) (paths : List Path) :
    Guided (base.Visited paths) (fun _ => True) (fun _ => False)
      fun _ w => ∃ outputs, base.Emits paths outputs w where
  toSteps := by
    refine .ofFiles (fun _ => finds_any _) ?_ ?_
    · rintro w v ⟨outputs, h⟩ quiet
      exact ⟨outputs, h.quiet quiet⟩
    · rintro w cache imports ⟨outputs, h⟩
      exact ⟨outputs, h.unwritten ⟨rfl, rfl, rfl, rfl⟩ rfl rfl⟩
  keep := by
    rintro P m w v s document - visited unknown - read run ⟨outputs, h⟩
    obtain ⟨result, executes, stripped, -⟩ :=
      Workbench.executes_of_expanded visited unknown read run
    obtain ⟨good, bad⟩ := h.keep (executes.sifts stripped)
    refine ⟨fun u run => ?_, fun e u run => .inr ?_⟩
    · rcases good u run with ⟨-, emits⟩ | ⟨-, emits⟩
      · exact ⟨_, emits⟩
      · exact ⟨_, emits⟩
    · exact ⟨outputs, (bad e u run).unwritten ⟨rfl, rfl, rfl, rfl⟩ rfl rfl⟩

theorem emits_compileAll (w : Workbench) (paths : List Path) :
    ∃ outputs, w.Emits paths outputs (w.compileAll paths).2 :=
  (emits_guided w paths).compileAll (w.follows_visited paths) (fun _ => Workbench.visited_turn)
    ⟨[], .refl w paths⟩ (fun _ _ => trivial) fun _ _ _ => id

theorem emits_compile (w : Workbench) (path : Path) :
    ∃ outputs, w.Emits [path] outputs (w.compile path).2 := by
  obtain ⟨outputs, emits⟩ := emits_compileAll w [path]
  rw [compileAll_cons] at emits
  exact ⟨outputs, emits.quiet (quiet_next w path).symm⟩

theorem Workbench.Sifts.keys {o : Output} (h : base.Sifts paths o) :
    o.document.Keys fun key => Directive.looksLike key = false := by
  obtain ⟨source, result, u, -, -, document⟩ := h
  rw [document]
  apply Json.keys_rewrite_only
  · exact fun s => .string _
  · intro key stays
    simpa using stays

/-- Every output of a session is a document that it executed without the entries of directives, the
other entries in their order; so at no depth is a key of it shaped like a directive. -/
theorem outputs_without_directives (w : Workbench) :
    (∀ path, ∃ outputs, w.Emits [path] outputs (w.compile path).2 ∧
      ∀ o ∈ outputs, o.document.Keys fun key => Directive.looksLike key = false) ∧
    ∀ paths, ∃ outputs, w.newGeneration.Emits paths outputs (w.compileBatch paths).2 ∧
      (w.compileBatch paths).1.written = outputs.length ∧
      ∀ o ∈ outputs, o.document.Keys fun key => Directive.looksLike key = false := by
  constructor
  · intro path
    obtain ⟨outputs, emits⟩ := emits_compile w path
    exact ⟨outputs, emits, fun o member => (emits.sifted o member).keys⟩
  · intro paths
    obtain ⟨outputs, emits⟩ := emits_compileAll w.newGeneration paths
    refine ⟨outputs, emits, ?_, fun o member => (emits.sifted o member).keys⟩
    have count := emits.count
    have start : w.newGeneration.session.written = 0 := rfl
    rw [start, Nat.zero_add] at count
    exact count

end SchemaLoom
