import SchemaLoom.Proofs.Session.Once
import SchemaLoom.Proofs.Session.Reports

/-!
# What a batch leaves alone

A batch compiles every template of its list, each where the ones before it left the session.
Whatever goes wrong on the way, the only files that it changes are outputs of documents that were
finished. A template that failed with an error other than one of writing is not finished, and
neither is one that the batch did not get to.
-/

namespace SchemaLoom

open SchemaLoom.Path Compile FileSystem

variable {base w v : Workbench} {paths : List Path} {p x y : Path} {s : CompiledSchema}

/-! ## The turns of a batch -/

/-- A template is asked for in one of the turns, directly or on behalf of others. -/
def Workbench.GetsTo (w : Workbench) (paths : List Path) (y : Path) : Prop :=
  ∃ turn ∈ w.turns paths, ∃ P m x v,
    Visits (turn.2.files.fileCount + 2) turn.1 turn.2 P m x v ∧ x.same y = true

def failure? (turn : Path × Workbench) : Option (Path × BuildError) :=
  match (turn.2.compile turn.1).1 with
  | .ok _ => none
  | .error e => some (turn.1, e)

theorem failure?_eq_some {turn : Path × Workbench} {e : BuildError} :
    failure? turn = some (p, e) ↔ turn.1 = p ∧ (turn.2.compile turn.1).1 = .error e := by
  unfold failure?
  cases (turn.2.compile turn.1).1 <;> simp

theorem compileAll_failures (w : Workbench) (paths : List Path) :
    (w.compileAll paths).1 = (w.turns paths).filterMap failure? := by
  induction paths generalizing w with
  | nil => rfl
  | cons p paths ih =>
    rw [compileAll_cons, ih, Workbench.turns, List.filterMap_cons, failure?]
    cases (w.compile p).1 <;> rfl

theorem kept_of_turns {K : Workbench → Prop} (h : K w)
    (step : ∀ turn ∈ w.turns paths, K turn.2 → K (turn.2.next turn.1)) :
    (∀ turn ∈ w.turns paths, K turn.2) ∧ K (w.compileAll paths).2 := by
  induction paths generalizing w with
  | nil => exact ⟨by simp [Workbench.turns], h⟩
  | cons p paths ih =>
    rw [Workbench.turns, List.forall_mem_cons] at step ⊢
    rw [compileAll_cons]
    obtain ⟨rest, final⟩ := ih (step.1 h) step.2
    exact ⟨⟨h, rest⟩, final⟩

theorem state_compileAll (away : ¬ w.GetsTo paths y) :
    (w.compileAll paths).2.state y = w.state y := by
  refine (kept_of_turns (K := fun v => v.state y = w.state y) rfl fun turn mem same => ?_).2
  have unvisited := within_unvisited (n := turn.2.files.fileCount + 2) (p := turn.1) (w := turn.2)
    (y := y) fun P m x v visits => by
      rw [Bool.eq_false_iff]
      exact fun hits => away ⟨turn, mem, P, m, x, v, visits, hits⟩
  rw [state_quiet (quiet_next turn.2 turn.1), compile_reached, unvisited, same]

theorem settled_turns {A : Path → Prop} {S T : Place} (setting : Setting A S T base)
    (h : Settled A T base [] w) (admitted : ∀ p ∈ paths, A p) :
    (∀ turn ∈ w.turns paths, Settled A T base [] turn.2) ∧
      Settled A T base [] (w.compileAll paths).2 := by
  refine kept_of_turns h fun turn mem settled => ?_
  have compiled := settled.compile setting (admitted turn.1 (mem_of_turn mem))
  exact compiled.quiet (quiet_next turn.2 turn.1)

/-! ## Files -/

namespace FileSystem.Received

variable {isPretty : Bool} {fs fs' : FileSystem} {outputs : List Output} {q : Place}
  {contents : Contents}

theorem grown (h : fs.Received isPretty outputs fs') : Grown [] fs fs' := by
  induction h with
  | nothing => exact .refl
  | directory _ made ih => exact ih.trans (makeDirectories_grown made)
  | output o _ wrote ih => exact ih.trans (writeFile_grown wrote)

theorem file (h : fs.Received isPretty outputs fs')
    (absolute : ∀ o ∈ outputs, o.path.isAbsolute = true)
    (hf : fs'.entry? q = some (.file contents)) :
    fs.entry? q = some (.file contents) ∨ ∃ o ∈ outputs, fs'.locate o.path = .ok q := by
  induction h with
  | nothing => exact .inl hf
  | @directory outputs fs' fs'' p _ made ih =>
    rcases ih absolute ((makeDirectories_file made).mp hf) with same | ⟨o, mem, hl⟩
    · exact .inl same
    · exact .inr ⟨o, mem, locate_mono (absolute o mem)
        (fun _ => (makeDirectories_grown made).keepsDirectory) hl⟩
  | @output outputs fs' fs'' o _ wrote ih =>
    have later : ∀ o' ∈ outputs ++ [o], fs'.locate o'.path = .ok q → fs''.locate o'.path = .ok q :=
      fun o' mem hl =>
        locate_mono (absolute o' mem) (fun _ => (writeFile_grown wrote).keepsDirectory) hl
    obtain ⟨place, hl, -, rfl⟩ := writeFile_eq_ok.mp wrote
    by_cases he : q = place
    · subst he
      have mem : o ∈ outputs ++ [o] := by simp
      exact .inr ⟨o, mem, later o mem hl⟩
    · rw [entry?_put_of_ne he] at hf
      have front : ∀ {o'}, o' ∈ outputs → o' ∈ outputs ++ [o] := List.mem_append_left [o]
      rcases ih (fun o' mem => absolute o' (front mem)) hf with same | ⟨o', mem, hl⟩
      · exact .inl same
      · exact .inr ⟨o', front mem, later o' (front mem) hl⟩

end FileSystem.Received

/-- What a batch leaves as it was, and what it reports. -/
structure Workbench.Isolates (base : Workbench) (paths : List Path) (report : BatchReport)
    (after : Workbench) : Prop where
  /-- No file goes away. -/
  stays : ∀ q c, base.files.entry? q = some (.file c) → ∃ c', after.files.entry? q = some (.file c')
  /-- A file is as it was, or it is the output of a document that was finished and is exported. -/
  changed : ∀ q c, after.files.entry? q = some (.file c) → base.files.entry? q = some (.file c) ∨
    ∃ s, after.Stores s ∧ after.files.locate (after.outputOf s) = .ok q
  /-- An output that is none of theirs is read as before. -/
  kept : ∀ p, (∀ s place, after.Stores s → after.files.locate (after.outputOf s) = .ok place →
      after.files.locate (base.session.layout.outputFor p) ≠ .ok place) →
    ∀ place c, base.files.find (base.session.layout.outputFor p) = .ok (place, .file c) →
      after.files.find (base.session.layout.outputFor p) = .ok (place, .file c)
  /-- Nothing is finished that the batch does not get to. -/
  reached : ∀ x s, after.state x = .known s → base.newGeneration.GetsTo paths x
  /-- Nothing is finished that failed otherwise than in writing. -/
  failed : ∀ S T, base.Sound S T → (∀ p ∈ paths, Admits T p) → ∀ p e, (p, e) ∈ report.failures →
    ¬ base.session.layout.OutputFault e → ∀ s, after.state p ≠ .known s
  /-- Every template of the list has its turn, in this order. -/
  attempted : (base.newGeneration.turns paths).map Prod.fst = paths
  failures : report.failures = (base.newGeneration.turns paths).filterMap failure?

/-- A batch writes the output of a document. -/
def Workbench.Writes (base : Workbench) (paths : List Path) (s : CompiledSchema) : Prop :=
  ∃ F W outputs, base.Tallies paths F W outputs ∧ s ∈ W

namespace Workbench.Writes

theorem stores (h : base.Writes paths s) : (base.compileBatch paths).2.Stores s := by
  obtain ⟨F, W, outputs, tallies, mem⟩ := h
  have accounts := tallies.accounts
  exact ⟨(accounts.records.known_iff _ _).mpr ⟨accounts.written.subset mem, Path.same_self _⟩,
    accounts.exported s mem⟩

theorem outputOf (h : base.Writes paths s) :
    (base.compileBatch paths).2.outputOf s = base.session.layout.outputFor s.source := by
  obtain ⟨F, W, outputs, tallies, -⟩ := h
  have layout : (base.compileBatch paths).2.session.layout = base.session.layout :=
    tallies.accounts.emits.settings.layout
  rw [Workbench.outputOf, layout]

end Workbench.Writes

section Files

variable (absolute : base.session.layout.output.isAbsolute = true)
include absolute

/-- The files that a batch changes are outputs that it writes. -/
theorem compileBatch_writes (paths : List Path) :
    Grown [] base.files (base.compileBatch paths).2.files ∧
      ∀ q c, (base.compileBatch paths).2.files.entry? q = some (.file c) →
        base.files.entry? q = some (.file c) ∨ ∃ s, base.Writes paths s ∧
          (base.compileBatch paths).2.files.locate (base.session.layout.outputFor s.source) =
            .ok q := by
  obtain ⟨F, W, outputs, tallies⟩ := compileBatch_tallies base paths
  have received : base.files.Received base.session.isPretty outputs
      (base.compileBatch paths).2.files := tallies.accounts.emits.files
  have written : ∀ o ∈ outputs, ∃ s, base.Writes paths s ∧
      o.path = base.session.layout.outputFor s.source := by
    intro o mem
    have mem : o.path ∈ W.map fun s => base.session.layout.outputFor s.source :=
      tallies.accounts.paths ▸ List.mem_map_of_mem mem
    obtain ⟨s, mem, same⟩ := List.mem_map.mp mem
    exact ⟨s, ⟨F, W, outputs, tallies, mem⟩, same.symm⟩
  refine ⟨received.grown, fun q c hf => (received.file (fun o mem => ?_) hf).imp_right ?_⟩
  · obtain ⟨s, -, same⟩ := written o mem
    rw [same]
    exact Layout.outputFor_isAbsolute absolute _
  · rintro ⟨o, mem, hl⟩
    obtain ⟨s, writes, same⟩ := written o mem
    exact ⟨s, writes, same ▸ hl⟩

theorem compileBatch_files {report : BatchReport} {after : Workbench}
    (run : base.compileBatch paths = (report, after)) :
    Grown [] base.files after.files ∧ ∀ q c, after.files.entry? q = some (.file c) →
      base.files.entry? q = some (.file c) ∨
        ∃ s, after.Stores s ∧ after.files.locate (after.outputOf s) = .ok q := by
  obtain rfl : (base.compileBatch paths).2 = after := by rw [run]
  obtain ⟨grown, changed⟩ := compileBatch_writes absolute paths
  refine ⟨grown, fun q c hf => (changed q c hf).imp_right ?_⟩
  rintro ⟨s, writes, hl⟩
  rw [← writes.outputOf] at hl
  exact ⟨s, writes.stores, hl⟩

/-- Whatever goes wrong with some templates of a batch, nothing else is touched: files change only
where a finished document is written, and a template that failed for a reason of its own or was not
got to is not finished. Every template of the list has its turn, and those that fail in it are
listed in this order. -/
theorem compileBatch_isolated (paths : List Path) :
    base.Isolates paths (base.compileBatch paths).1 (base.compileBatch paths).2 := by
  have run : base.compileBatch paths =
    ((base.compileBatch paths).1, (base.compileBatch paths).2) := rfl
  obtain ⟨grown, changed⟩ := compileBatch_files absolute run
  refine ⟨fun q c => grown.keepsFile, changed, fun p alone place c found => ?_,
    fun x s known => ?_, fun S T sound admitted p e listed writing s known => ?_, map_turns _ _,
    compileAll_failures _ _⟩
  · obtain ⟨hl, he⟩ := find_eq_ok.mp found
    have there := locate_mono (Layout.outputFor_isAbsolute absolute _)
      (fun _ => grown.keepsDirectory) hl
    obtain ⟨c', he'⟩ := grown.keepsFile he
    refine find_eq_ok.mpr ⟨there, ?_⟩
    rcases changed place c' he' with same | ⟨s, stored, located⟩
    · rw [he', ← same, he]
    · exact absurd there (alone s place stored located)
  · by_contra away
    have same : (base.compileBatch paths).2.state x = base.newGeneration.state x :=
      state_compileAll away
    rw [known] at same
    simp [Workbench.state, Workbench.newGeneration, Workbench.modifySession] at same
  · obtain ⟨turns, final⟩ := settled_turns sound.setting (settled_newGeneration base) admitted
    have listed : (p, e) ∈ (base.newGeneration.turns paths).filterMap failure? :=
      compileAll_failures _ _ ▸ listed
    obtain ⟨turn, mem, failure⟩ := List.mem_filterMap.mp listed
    obtain ⟨rfl, fails⟩ := failure?_eq_some.mp failure
    have hp := admitted turn.1 (mem_of_turn mem)
    exact (turns turn mem).bad_of_error sound.setting hp fails writing
      (final.good _ s hp known).good

end Files

/-! ## A template that fails and is finished later -/

/-- Template `b` includes `a`, whose output is a directory, `c` includes `b`, and `d` includes
itself. There are outputs of `b` and `d` from before. -/
def staleOutputs : Workbench where
  session := .start ⟨⟨"/src"⟩, ⟨"/out"⟩⟩ none none false
  files := ⟨[], [(["src"], .directory), (["src", "a.yml"], .file (.text "title: a")),
    (["src", "b.yml"], .file (.text "$IMPORT:\n  type: include\n  path: a")),
    (["src", "c.yml"], .file (.text "$IMPORT:\n  type: include\n  path: b")),
    (["src", "d.yml"], .file (.text "$IMPORT:\n  type: include\n  path: d")),
    (["out"], .directory), (["out", "a.json"], .directory),
    (["out", "b.json"], .file (.text "stale")), (["out", "d.json"], .file (.text "stale"))]⟩
  log := []

theorem staleOutputs_sound : staleOutputs.Sound ["src"] ["out"] where
  trees := ⟨by decide, by decide, by decide, by decide⟩
  files := .ofEntries (by decide) (by decide)
  root := by decide
  docs _ h := by simp [staleOutputs, Session.start] at h

def staleBatch : BatchReport × Workbench :=
  staleOutputs.compileBatch [⟨"/src/b.yml"⟩, ⟨"/src/c.yml"⟩, ⟨"/src/d.yml"⟩]

/-- What the batch reports and leaves, as far as it can be computed. -/
theorem staleBatch_facts :
    (⟨"/src/b.yml"⟩ ∈ staleBatch.1.failing ∧ ⟨"/src/d.yml"⟩ ∈ staleBatch.1.failing ∧
      ∀ f ∈ staleBatch.1.failures, f.1 = ⟨"/src/d.yml"⟩ →
        ¬ staleOutputs.session.layout.OutputFault f.2) ∧
    (∀ entry ∈ staleBatch.2.session.cache.entries, (match entry.2 with
      | .inProgress => true
      | .done s => (staleBatch.2.files.locate (staleBatch.2.outputOf s)).toOption !=
          some ["out", "d.json"]) = true) ∧
    staleBatch.2.files.entry? ["out", "b.json"] = some (.file (.text "\x7b\x7d")) ∧
    (staleBatch.2.files.locate ⟨"/out/d.json"⟩).toOption = some ["out", "d.json"] ∧
    staleOutputs.session.layout.outputFor ⟨"/src/d.yml"⟩ = ⟨"/out/d.json"⟩ ∧
    (staleOutputs.files.find ⟨"/out/d.json"⟩).toOption =
      some (["out", "d.json"], .file (.text "stale")) ∧
    staleOutputs.files.entry? ["out", "b.json"] = some (.file (.text "stale")) := by
  decide +kernel

theorem staleBatch_admits {p : Path} (mem : p ∈ [⟨"/src/b.yml"⟩, ⟨"/src/c.yml"⟩, ⟨"/src/d.yml"⟩]) :
    Admits ["out"] p := by
  simp only [List.mem_cons, List.not_mem_nil, or_false] at mem
  rcases mem with rfl | rfl | rfl
  · exact ⟨["src", "b.yml"], by decide, by decide, by decide⟩
  · exact ⟨["src", "c.yml"], by decide, by decide, by decide⟩
  · exact ⟨["src", "d.yml"], by decide, by decide, by decide⟩

/-- Both `b` and `d` are listed. The output of `d` is as it was; `b` was finished for `c`, and its
output is not. -/
theorem compileBatch_isolated_staleOutputs :
    (⟨"/src/d.yml"⟩ ∈ staleBatch.1.failing ∧ (∀ s, staleBatch.2.state ⟨"/src/d.yml"⟩ ≠ .known s) ∧
      staleBatch.2.files.find ⟨"/out/d.json"⟩ = .ok (["out", "d.json"], .file (.text "stale"))) ∧
    ⟨"/src/b.yml"⟩ ∈ staleBatch.1.failing ∧
      staleBatch.2.files.entry? ["out", "b.json"] = some (.file (.text "\x7b\x7d")) ∧
      ∃ s, staleBatch.2.Stores s ∧
        staleBatch.2.files.locate (staleBatch.2.outputOf s) = .ok ["out", "b.json"] := by
  have isolated := compileBatch_isolated
    (by decide : staleOutputs.session.layout.output.isAbsolute = true)
    [⟨"/src/b.yml"⟩, ⟨"/src/c.yml"⟩, ⟨"/src/d.yml"⟩]
  rw [← staleBatch.eq_1] at isolated
  obtain ⟨⟨failing, failing', cause⟩, apart, overwritten, there, output, before, stale⟩ :=
    staleBatch_facts
  obtain ⟨e, listed⟩ := BatchReport.mem_failing.mp failing'
  refine ⟨⟨failing', ?_, ?_⟩, failing, overwritten, ?_⟩
  · exact isolated.failed _ _ staleOutputs_sound (fun _ => staleBatch_admits) _ e listed
      (cause _ listed rfl)
  · have kept := isolated.kept ⟨"/src/d.yml"⟩
    rw [output] at kept
    refine kept (fun s place stores located same => ?_) _ _ (eq_ok_of_toOption before)
    obtain rfl := Except.ok.inj ((eq_ok_of_toOption there).symm.trans same)
    obtain ⟨q, mem, -⟩ := Cache.mem_of_known stores.1
    have away := apart _ mem
    dsimp only at away
    rw [located] at away
    exact absurd away (by decide)
  · refine (isolated.changed _ _ overwritten).resolve_left ?_
    simp [stale]

end SchemaLoom
