import SchemaLoom.Proofs.FileSystem.Making
import SchemaLoom.Proofs.FileSystem.Standing
import SchemaLoom.Proofs.Session.Inputs
import SchemaLoom.Proofs.Session.Writing

/-!
# Compiling with trees that are apart

Every output of a template that was read goes into the output tree, and nothing else is written. So
a compilation leaves its inputs as they were, and it fails for the sake of an output only with a
file error on a path below the output root.
-/

namespace SchemaLoom

open SchemaLoom.Path FileSystem

/-- A file error on the output tree. -/
def Layout.OutputFault (l : Layout) (e : BuildError) : Prop :=
  ∃ path cause, e = .file path cause ∧ path.startsWith l.output = true

instance (l : Layout) (e : BuildError) : Decidable (l.OutputFault e) :=
  match e with
  | .file path _ => decidable_of_iff (path.startsWith l.output = true) (by
      constructor
      · exact fun h => ⟨path, _, rfl, h⟩
      · rintro ⟨_, _, ⟨⟩, h⟩
        exact h)
  | .importing _ _ => isFalse (by rintro ⟨_, _, ⟨⟩, _⟩)
  | .importCycle _ => isFalse (by rintro ⟨_, _, ⟨⟩, _⟩)
  | .parse _ _ => isFalse (by rintro ⟨_, _, ⟨⟩, _⟩)

/-- No write failed in a compilation. -/
def Layout.Faultless {α : Type} (l : Layout) (r : Except BuildError α) : Prop :=
  ∀ e, r = .error e → ¬ l.OutputFault e

instance {α : Type} (l : Layout) (r : Except BuildError α) : Decidable (l.Faultless r) :=
  match r with
  | .ok _ => isTrue (by rintro e ⟨⟩)
  | .error e => decidable_of_iff (¬ l.OutputFault e) (by simp [Layout.Faultless])

theorem readTemplate_eq_ok {fs : FileSystem} {p : Path} {document : Json}
    (h : fs.readTemplate p = .ok document) :
    ∃ text, fs.readText p = .ok text ∧ Template.parse (.of p) text = .ok document := by
  unfold FileSystem.readTemplate at h
  split at h
  · simp at h
  · rename_i text read
    split at h
    · rename_i v parsed
      exact ⟨text, read, Except.ok.inj h ▸ parsed⟩
    · simp at h

theorem readTemplate_congr {fs fs' : FileSystem} {p : Path} {document : Json}
    (same : ∀ s, fs'.readText p = .ok s ↔ fs.readText p = .ok s) :
    fs'.readTemplate p = .ok document ↔ fs.readTemplate p = .ok document := by
  constructor
  · intro read
    obtain ⟨text, read, parsed⟩ := readTemplate_eq_ok read
    simp [FileSystem.readTemplate, (same text).mp read, parsed]
  · intro read
    obtain ⟨text, read, parsed⟩ := readTemplate_eq_ok read
    simp [FileSystem.readTemplate, (same text).mpr read, parsed]

/-! ## What writing an output changes -/

section Wrote

open Compile

variable {w : Workbench} {s : CompiledSchema}

theorem Compile.Wrote.wellFormed {r : EStateM.Result BuildError Workbench PUnit}
    (h : Compile.Wrote w s r) (absolute : (w.outputOf s).isAbsolute = true)
    (wf : WellFormed w.files) : WellFormed (reached r).files := by
  cases h with
  | noDirectory cause _ quiet _ =>
    rw [reached_error, quiet.1]
    exact wf
  | noFile cause ready _ _ => exact wf.ready absolute ready
  | written ready _ done => exact (wf.ready absolute ready).writeFile absolute done

theorem Compile.wellFormed_keep (root : w.session.layout.output.isAbsolute = true)
    (wf : WellFormed w.files) : WellFormed (reached (keep s w)).files := by
  rw [keep_run]
  split
  · exact (write_run s (w.finished s)).wellFormed (Layout.outputFor_isAbsolute root _) wf
  · exact wf

/-- Writing a document changes no file but the one at its output. -/
theorem Compile.Wrote.file {r : EStateM.Result BuildError Workbench PUnit} (h : Wrote w s r)
    (absolute : (w.outputOf s).isAbsolute = true) {place : Place}
    (other : ∀ c, (reached r).files.find (w.outputOf s) ≠ .ok (place, .file c)) (c : Contents) :
    (reached r).files.entry? place = some (.file c) ↔ w.files.entry? place = some (.file c) := by
  cases h with
  | noDirectory cause _ quiet _ => rw [reached_error, quiet.1]
  | noFile cause ready _ _ => exact ready.file
  | written ready _ done =>
    obtain ⟨output, located, found⟩ := find_writeFile absolute done
    obtain ⟨output', located', -, rfl⟩ := writeFile_eq_ok.mp done
    obtain rfl := Except.ok.inj (located.symm.trans located')
    have ne : place ≠ output := by
      rintro rfl
      exact other _ found
    simp only [reached_ok, Workbench.counted, Workbench.modifySession, entry?_put_of_ne ne]
    exact ready.file

theorem Compile.Wrote.samePages {r : EStateM.Result BuildError Workbench PUnit} (h : Wrote w s r)
    (absolute : (w.outputOf s).isAbsolute = true)
    (named : ∀ name, (w.outputOf s).fileName? = some name → OutputName name)
    (wf : WellFormed w.files) : SamePages w.files (reached r).files := by
  intro place other
  refine h.file absolute fun c found => ?_
  have last := (h.wellFormed absolute wf).fileName?_of_find found
  obtain ⟨init, name, rfl⟩ := (List.eq_nil_or_concat place).resolve_left fun top => by
    have there := (find_eq_ok.mp found).2
    simp [top] at there
  rw [List.concat_eq_append, List.getLast?_concat] at last other
  exact other name rfl (named name last)

end Wrote

namespace Workbench.Rooted

variable {S T : Place} {base w : Workbench} (rooted : base.Rooted S T)
include rooted

theorem readTemplate (h : Unchanged T base w) {p : Path} (hp : Admits T p) {document : Json} :
    w.files.readTemplate p = .ok document ↔ base.files.readTemplate p = .ok document :=
  readTemplate_congr fun _ => rooted.readText h hp

theorem output {p : Path} (hp : Admits T p) {document : Json}
    (read : base.files.readTemplate p = .ok document) :
    ∃ a c, (base.session.layout.outputFor p).components = .root :: (T ++ a).map .name ++ [c] ∧
      (c = .up ∨ ∃ s, c = .name s) := by
  obtain ⟨place, hv, rfl, -⟩ := hp
  obtain ⟨text, read, -⟩ := readTemplate_eq_ok read
  obtain ⟨ne, notRoot⟩ := rooted.ne_of_readText hv read
  exact rooted.trees.outputFor hv ne notRoot

theorem startsWith_output {p : Path} {a : Place} {rest : List Component}
    (h : p.components = .root :: (T ++ a).map .name ++ rest) :
    p.startsWith base.session.layout.output = true := by
  rw [Path.startsWith_iff, rooted.trees.outputAt, h]
  exact ⟨a.map .name ++ rest, by simp⟩

/-- Writing an output changes nothing but the output tree, and fails with an error on it. -/
theorem wrote_of_output (h : Unchanged T base w) {schema : CompiledSchema} {a : Place}
    {c : Component} (hc : (base.session.layout.outputFor schema.source).components =
      .root :: (T ++ a).map .name ++ [c]) (hend : c = .up ∨ ∃ s, c = .name s)
    {r : EStateM.Result BuildError Workbench PUnit} (hw : Compile.Wrote w schema r) :
    Unchanged T base (Compile.reached r) ∧
      ∀ e v, r = .error e v → base.session.layout.OutputFault e := by
  have output : w.outputOf schema = base.session.layout.outputFor schema.source := by
    rw [Workbench.outputOf, h.layout]
  have root := rooted.trees.outputAt.isAbsolute
  have absolute : (w.outputOf schema).isAbsolute = true :=
    output ▸ Layout.outputFor_isAbsolute root _
  have wellFormed : WellFormed base.files → WellFormed (Compile.reached r).files := fun files =>
    hw.wellFormed absolute (h.wellFormed files)
  have pages : SamePages base.files (Compile.reached r).files :=
    h.pages.trans (hw.samePages absolute (fun name named =>
      Layout.outputName_of_outputFor root (output ▸ named)) (h.wellFormed rooted.files))
  rw [← output] at hc
  cases hw with
  | @noDirectory parent cause v hparent quiet _ =>
    refine ⟨h.quiet quiet, ?_⟩
    rintro e u ⟨⟩
    obtain ⟨q, hq, hl⟩ := parent?_leadsTo hc
    obtain rfl := Option.some.inj (hq.symm.trans hparent)
    have inside : q.components = .root :: (T ++ a).map .name ++ [] := by
      simpa [LeadsTo] using hl
    exact ⟨_, cause, rfl, rooted.startsWith_output inside⟩
  | @noFile cause v files ready quiet _ =>
    constructor
    · have := h.quiet quiet
      have grown := (ready.prepared hc).grown T (.inl (List.prefix_append T a))
      exact ⟨this.layout, this.registry, this.docs, this.isPretty, h.files.trans grown, wellFormed,
        pages⟩
    · rintro e u ⟨⟩
      exact ⟨_, cause, rfl, rooted.startsWith_output hc⟩
  | @written v files files' ready quiet done =>
    constructor
    · have := h.quiet quiet
      rcases hend with rfl | ⟨s, rfl⟩
      · exact absurd done (writeFile_up hc)
      · have hl : (w.outputOf schema).LeadsTo (T ++ a ++ [s]) := by simpa [LeadsTo] using hc
        have written := written_of_ready hl ready done
        have inside : Inside T (T ++ a ++ [s]) :=
          Inside.iff.mpr (by cases a <;> simp)
        exact ⟨this.layout, this.registry, this.docs, this.isPretty,
          h.files.trans (written.grown T inside), wellFormed, pages⟩
    · rintro e u ⟨⟩

theorem wrote (h : Unchanged T base w) {schema : CompiledSchema} (hp : Admits T schema.source)
    {document : Json} (read : base.files.readTemplate schema.source = .ok document)
    {r : EStateM.Result BuildError Workbench PUnit} (hw : Compile.Wrote w schema r) :
    Unchanged T base (Compile.reached r) ∧
      ∀ e v, r = .error e v → base.session.layout.OutputFault e := by
  obtain ⟨a, c, hc, hend⟩ := rooted.output hp read
  exact rooted.wrote_of_output h hc hend hw

theorem kept (h : Unchanged T base w) {schema : CompiledSchema} (hp : Admits T schema.source)
    {document : Json} (read : base.files.readTemplate schema.source = .ok document) :
    Unchanged T base (Compile.reached (Compile.keep schema w)) ∧
      ∀ e v, Compile.keep schema w = .error e v → base.session.layout.OutputFault e := by
  have stored : Unchanged T base (w.finished schema) := h.modifySession rfl rfl rfl rfl
  rw [Compile.keep_run]
  split
  · exact rooted.wrote stored hp read (Compile.write_run schema _)
  · exact ⟨stored, by rintro e v ⟨⟩⟩

theorem steady {A : Path → Prop} (admits : ∀ p, A p → Admits T p) (finds : Finds A base) :
    Compile.Steady A (fun _ => False) fun _ w => Unchanged T base w := by
  refine .ofFiles (fun h => rooted.finds_of_unchanged h finds) (fun h hq => h.quiet hq)
    (fun _ _ h => h.modifySession rfl rfl rfl rfl) fun hp hw read hv _ => ?_
  have read := (rooted.readTemplate hw (admits _ hp)).mp read
  exact (rooted.kept hv (admits _ hp) read).1

end Workbench.Rooted

end SchemaLoom
