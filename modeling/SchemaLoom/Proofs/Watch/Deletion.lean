import SchemaLoom.Proofs.Dependencies.Closure
import SchemaLoom.Proofs.Watch.Reach

/-!
# What a deletion prepares

A deletion takes one template out of the import graph and queues what imported it. An importer that
reaches a deleted template only through other deleted ones is queued with the first of these, so it
does not matter in which order several deletions are carried out.
-/

namespace SchemaLoom

open SchemaLoom.Path FileSystem Relation

/-! ## A removed file -/

namespace FileSystem

variable {fs fs' : FileSystem} {p : Path} {place : Place}

theorem locate_of_directories (start : fs'.workingDirectory = fs.workingDirectory)
    (keeps : ∀ q, fs.entry? q = some .directory → fs'.entry? q = some .directory)
    (located : fs.locate p = .ok place) : fs'.locate p = .ok place := by
  unfold FileSystem.locate at located ⊢
  rw [start]
  split_ifs at located ⊢
  · exact follow_mono keeps located
  · exact follow_mono keeps located

theorem pathExists_removeFile (removed : fs.removeFile p = .ok fs') : fs'.pathExists p = false := by
  obtain ⟨place, contents, found, rfl⟩ := removeFile_eq_ok.mp removed
  obtain ⟨located, file⟩ := find_eq_ok.mp found
  have gone : entry? (fs.without (· == place)) place = none := by
    have ne : place ≠ [] := by
      rintro rfl
      simp at file
    have dropped := @lookup_filter place fs.entries (· == place)
    rw [if_pos (by simp)] at dropped
    unfold FileSystem.without entry?
    rw [if_neg ne, dropped]
  rw [← Bool.not_eq_true]
  intro there
  unfold pathExists at there
  split at there
  · rename_i target again
    obtain ⟨q, entry⟩ := target
    obtain ⟨relocated, entry⟩ := find_eq_ok.mp again
    have same : fs.locate p = .ok q := by
      refine @locate_of_directories (fs.without (· == place)) fs p q rfl (fun d directory => ?_)
        relocated
      rwa [entry?_without_self] at directory
      rintro rfl
      simp [gone] at directory
    obtain rfl := Except.ok.inj (same.symm.trans located)
    simp [gone] at entry
  · simp at there

theorem isFile_removeFile (removed : fs.removeFile p = .ok fs') : fs'.isFile p = false := by
  have absent := pathExists_removeFile removed
  rw [Bool.eq_false_iff] at absent ⊢
  intro file
  obtain ⟨q, contents, found⟩ := isFile_iff.mp file
  exact absent (by simp [pathExists, found])

/-- No file is new when one is removed. -/
theorem isFile_of_removeFile {q : Path} (removed : fs.removeFile p = .ok fs')
    (file : fs'.isFile q = true) : fs.isFile q = true := by
  obtain ⟨place, contents, found, rfl⟩ := removeFile_eq_ok.mp removed
  obtain ⟨o, c, again⟩ := isFile_iff.mp file
  obtain ⟨located, there⟩ := find_eq_ok.mp again
  obtain ⟨-, old⟩ := find_eq_ok.mp found
  have other : ∀ {d}, entry? (fs.without (· == place)) d ≠ none → d ≠ place := by
    rintro d there rfl
    have ne : d ≠ [] := by
      rintro rfl
      simp at old
    exact there (entry?_without_of_gone (by simp) ne)
  refine isFile_iff.mpr ⟨o, c, find_eq_ok.mpr ⟨?_, ?_⟩⟩
  · refine @locate_of_directories (fs.without (· == place)) fs q o rfl (fun d directory => ?_)
      located
    rwa [entry?_without_self (other (by simp [directory]))] at directory
  · rwa [entry?_without_self (other (by simp [there]))] at there

end FileSystem

/-! ## Paths through the graph -/

namespace Dependencies

variable {d : Dependencies} {a p q x : Path}

theorem Has.congr_right (h : d.Has p q) (same : q.same x = true) : d.Has p x :=
  h.congr (same_self p) same

theorem reaches_remove (other : a.same x = false) (reaches : TransGen d.Has x q)
    (avoids : ∀ y, a.same y = true → ¬ TransGen d.Has x y) : TransGen (d.remove a).Has x q := by
  induction reaches with
  | single edge =>
    refine .single (has_remove.mpr ⟨edge, other, ?_⟩)
    exact Bool.eq_false_iff.mpr fun same => avoids _ same (.single edge)
  | tail way edge ih =>
    refine ih.tail (has_remove.mpr ⟨edge, ?_, ?_⟩)
    · exact Bool.eq_false_iff.mpr fun same => avoids _ same way
    · exact Bool.eq_false_iff.mpr fun same => avoids _ same (way.tail edge)

theorem reaches_congr_right (reaches : TransGen d.Has x p) (same : p.same q = true) :
    TransGen d.Has x q := by
  obtain ⟨y, way, edge⟩ := TransGen.tail'_iff.mp reaches
  exact TransGen.tail'_iff.mpr ⟨y, way, edge.congr_right same⟩

theorem hasPath_affected_singleton : hasPath (d.affected [a]) x = true ↔
    a.same x = false ∧ TransGen d.Has x a := by
  rw [hasPath_affected_iff, same_comm]
  simp [hasPath]

end Dependencies

/-! ## One deletion -/

namespace WatchLoop

variable {l k : WatchLoop} {source s x : Path} {sources rest : List Path}

/-- A tick that deletes a template, and what it leaves: no output; the import graph without the
template, and in the queue behind what was there the templates that imported it, in path order, as
far as they exist. Nothing is compiled, and no file is touched but the output. -/
structure Retires (l : WatchLoop) (source : Path) (rest : List Path)
    (after : WatchLoop) : Prop where
  queues : ∃ importers, Increasing importers ∧
    (∀ x, Dependencies.hasPath importers x = true ↔
      source.same x = false ∧ TransGen l.bench.session.imports.Has x source) ∧
    after = { l with
      deletions := rest
      changes := l.changes ++ importers.filter l.bench.files.isFile
      bench := after.bench }
  output : after.bench.files.pathExists (l.bench.session.layout.outputFor source) = false
  files : after.bench.files = l.bench.files ∨
    l.bench.files.removeFile (l.bench.session.layout.outputFor source) = .ok after.bench.files
  session : after.bench.session =
    { l.bench.session with imports := after.bench.session.imports }
  imports : ∀ p q, after.bench.session.imports.Has p q ↔
    l.bench.session.imports.Has p q ∧ source.same p = false ∧ source.same q = false

theorem pathExists_eq_false {files : FileSystem} {p : Path} {cause : FileError}
    (plain : files.isDirectory p = false) (failed : files.removeFile p = .error cause) :
    files.pathExists p = false := by
  unfold FileSystem.removeFile at failed
  unfold FileSystem.isDirectory at plain
  unfold FileSystem.pathExists
  split at failed
  · rename_i found
    rw [found]
  · rename_i found
    simp [found] at plain
  · simp at failed

/-- The output is removed, or it cannot be. -/
theorem delete_files (l : WatchLoop) (source : Path) :
    l.bench.files.removeFile (l.bench.session.layout.outputFor source) =
        .ok (l.delete source).bench.files ∨
      (∃ cause, l.bench.files.removeFile (l.bench.session.layout.outputFor source) =
        .error cause) ∧ (l.delete source).bench.files = l.bench.files := by
  cases removed : l.bench.files.removeFile (l.bench.session.layout.outputFor source) with
  | ok files =>
    have deleted : (l.delete source).bench.files = files := by
      unfold delete removeOutput Workbench.forgetSource Workbench.modifySession
      simp only [removed]
      rfl
    exact .inl (congrArg Except.ok deleted.symm)
  | error cause =>
    refine .inr ⟨⟨cause, rfl⟩, ?_⟩
    obtain ⟨-, same | gone⟩ := l.delete_bench source
    · exact same
    · simp [removed] at gone

theorem pathExists_delete (l : WatchLoop) (source : Path)
    (plain : l.bench.files.isDirectory (l.bench.session.layout.outputFor source) = false) :
    (l.delete source).bench.files.pathExists (l.bench.session.layout.outputFor source) = false := by
  rcases l.delete_files source with removed | ⟨⟨cause, failed⟩, same⟩
  · exact pathExists_removeFile removed
  · rw [same]
    exact pathExists_eq_false plain failed

theorem isFile_delete (l : WatchLoop) (source : Path) :
    (l.delete source).bench.files.isFile (l.bench.session.layout.outputFor source) = false := by
  rcases l.delete_files source with removed | ⟨⟨cause, failed⟩, same⟩
  · exact isFile_removeFile removed
  · rw [same, Bool.eq_false_iff]
    intro file
    obtain ⟨place, contents, found⟩ := isFile_iff.mp file
    have removed := removeFile_eq_ok.mpr ⟨place, contents, found, rfl⟩
    simp [removed] at failed

theorem tick_eq_delete (queue : l.deletions = source :: rest) :
    l.tick = (.deleted source, { l with deletions := rest }.delete source) := by
  rcases l.tick_cases with ⟨source', rest', queue', same⟩ | ⟨drained, -⟩ | ⟨drained, -⟩
  · obtain ⟨rfl, rfl⟩ := List.cons.inj (queue.symm.trans queue')
    exact same
  · simp [drained] at queue
  · simp [drained] at queue

theorem tick_delete (queue : l.deletions = source :: rest) :
    l.tick.2 = { l with deletions := rest }.delete source := by
  rw [tick_eq_delete queue]

theorem tick_imports (queue : l.deletions = source :: rest) :
    l.tick.2.bench.session =
      { l.bench.session with imports := l.bench.session.imports.remove source } := by
  have removed := (delete_bench { l with deletions := rest } source).1
  rw [tick_delete queue, removed]

theorem tick_files (queue : l.deletions = source :: rest) :
    l.bench.files.removeFile (l.bench.session.layout.outputFor source) =
      .ok l.tick.2.bench.files ∨ l.tick.2.bench.files = l.bench.files := by
  have files := delete_files { l with deletions := rest } source
  rw [← tick_delete queue] at files
  exact files.imp_right And.right

theorem isFile_tick (queue : l.deletions = source :: rest) :
    l.tick.2.bench.files.isFile (l.bench.session.layout.outputFor source) = false := by
  have gone := isFile_delete { l with deletions := rest } source
  rwa [← tick_delete queue] at gone

theorem tick_drains (queue : l.deletions = source :: rest) : ∃ bench changes,
    l.tick.2 = { l with
      deletions := rest
      changes
      bench } := by
  obtain ⟨bench, deleted⟩ := delete_cases { l with deletions := rest } source
  rw [← tick_delete queue] at deleted
  exact ⟨bench, _, deleted⟩

theorem tick_changes (queue : l.deletions = source :: rest) : l.tick.2.changes =
    l.changes ++ (l.bench.session.imports.affected [source]).filter l.bench.files.isFile := by
  obtain ⟨bench, deleted⟩ := delete_cases { l with deletions := rest } source
  rw [tick_delete queue, deleted]

theorem retires_of_deletion (queue : l.deletions = source :: rest)
    (plain : l.bench.files.isDirectory (l.bench.session.layout.outputFor source) = false) :
    l.tick.1 = .deleted source ∧ l.Retires source rest l.tick.2 := by
  have tick := tick_eq_delete queue
  have output := pathExists_delete { l with deletions := rest } source plain
  obtain ⟨-, files⟩ := delete_bench { l with deletions := rest } source
  obtain ⟨bench, deleted⟩ := delete_cases { l with deletions := rest } source
  have session := tick_imports queue
  rw [tick] at session ⊢
  generalize { l with deletions := rest }.delete source = after at output files deleted session ⊢
  refine ⟨rfl, ⟨?_, output, files, ?_, fun p q => ?_⟩⟩
  · refine ⟨l.bench.session.imports.affected [source], Dependencies.increasing_affected _ _,
      fun x => Dependencies.hasPath_affected_singleton, ?_⟩
    rw [deleted]
  · rw [session]
  · rw [session]
    exact Dependencies.has_remove

/-! ## Several deletions -/

/-- A run in which no batch is built, with the templates whose deletions it carries out, in order.
Anything else may happen in between, and the loop is as `there` says at every deletion. -/
inductive Deletes (there : WatchLoop → Prop) : WatchLoop → List Path → WatchLoop → Prop
  | done (l : WatchLoop) : Deletes there l [] l
  | other {l k : WatchLoop} {sources : List Path} (m : Move) (ne : m ≠ .tick)
      (run : Deletes there (l.move m) sources k) : Deletes there l sources k
  | deletion {l k : WatchLoop} {source : Path} {rest sources : List Path}
      (queue : l.deletions = source :: rest) (here : there l)
      (run : Deletes there l.tick.2 sources k) : Deletes there l (source :: sources) k

/-- A template is there under every path by which the import graph knows it as an importer. -/
def Survives (x : Path) (l : WatchLoop) : Prop :=
  ∀ e ∈ l.bench.session.imports.edges, e.importer.same x = true →
    l.bench.files.isFile e.importer = true

theorem move_keeps (l : WatchLoop) {m : Move} (ne : m ≠ .tick) :
    (l.move m).bench.session = l.bench.session ∧ l.changes <+: (l.move m).changes := by
  have told : ∀ {news l'}, l.Learns news l' →
      l'.bench.session = l.bench.session ∧ l.changes <+: l'.changes := fun learns =>
    ⟨by rw [learns.bench], learns.changes ▸ List.prefix_append _ _⟩
  cases m with
  | change path => exact told (l.enqueueChange_learns path)
  | removal path => exact told (l.enqueueRemoval_learns path)
  | event event => exact told (l.intake_learns event)
  | markFailed => exact ⟨rfl, List.prefix_rfl⟩
  | edit files => exact ⟨rfl, List.prefix_rfl⟩
  | tick => exact absurd rfl ne

theorem Deletes.changes {there : WatchLoop → Prop} (run : Deletes there l sources k) :
    l.changes <+: k.changes := by
  induction run with
  | done => exact List.prefix_rfl
  | @other l k sources m ne _ ih => exact (l.move_keeps ne).2.trans ih
  | @deletion l k source rest sources queue _ _ ih =>
    rw [tick_changes queue] at ih
    exact (List.prefix_append _ _).trans ih

theorem hasPath_of_deletion (queue : l.deletions = source :: rest) (other : source.same x = false)
    (there : l.Survives x) (reaches : TransGen l.bench.session.imports.Has x source) :
    Dependencies.hasPath l.tick.2.changes x = true := by
  obtain ⟨y, listed, same⟩ := Dependencies.hasPath_iff.mp
    (Dependencies.hasPath_affected_singleton.mpr ⟨other, reaches⟩)
  obtain ⟨e, edge, rfl⟩ := Dependencies.exists_importer listed
  rw [tick_changes queue]
  refine Dependencies.hasPath_iff.mpr ⟨e.importer, List.mem_append_right _ ?_, same⟩
  exact List.mem_filter.mpr ⟨listed, there e edge (same_comm.trans same)⟩

/-- The first of several deletions that an importer leads to queues it: until then its way to the
deleted template is whole. -/
theorem Deletes.queues (run : Deletes (Survives x) l sources k) (mem : s ∈ sources)
    (others : ∀ t ∈ sources, t.same x = false)
    (reaches : TransGen l.bench.session.imports.Has x s) :
    Dependencies.hasPath k.changes x = true := by
  induction run with
  | done => simp at mem
  | @other l k sources m ne _ ih =>
    rw [← (l.move_keeps ne).1] at reaches
    exact ih mem others reaches
  | @deletion l k source rest sources queue here run ih =>
    obtain ⟨other, rest_others⟩ := List.forall_mem_cons.mp others
    by_cases first : TransGen l.bench.session.imports.Has x source
    · exact Dependencies.hasPath_mono run.changes.subset
        (hasPath_of_deletion queue other here first)
    · have avoids : ∀ y, source.same y = true → ¬ TransGen l.bench.session.imports.Has x y :=
        fun y same way => first (Dependencies.reaches_congr_right way (same_comm.trans same))
      have later : s ∈ sources := by
        rcases List.mem_cons.mp mem with rfl | mem
        · exact absurd reaches first
        · exact mem
      refine ih later rest_others ?_
      rw [tick_imports queue]
      exact Dependencies.reaches_remove other reaches avoids

/-- A deletion prepares the rebuild of exactly the templates that imported the deleted one. Of
several deletions, in whatever order and whatever else happens meanwhile, every template that
imported one of them in the beginning is queued in the end, as long as it is there itself. -/
theorem deletions_prepare (l : WatchLoop) :
    (∀ source rest, l.deletions = source :: rest →
      l.bench.files.isDirectory (l.bench.session.layout.outputFor source) = false →
      l.tick.1 = .deleted source ∧ l.Retires source rest l.tick.2) ∧
    ∀ x sources k, Deletes (Survives x) l sources k → (∀ t ∈ sources, t.same x = false) →
      (∃ s ∈ sources, TransGen l.bench.session.imports.Has x s) →
      Dependencies.hasPath k.changes x = true :=
  ⟨fun _ _ => retires_of_deletion, fun _ _ _ run others ⟨_, mem, reaches⟩ =>
    run.queues mem others reaches⟩

end WatchLoop

/-! ## Two links of a chain -/

/-- The first of three templates includes the second, and that one includes the third. -/
def chainProject : List (Place × Entry) :=
  [(["src"], .directory),
    (["src", "a.yml"], .file (.text "$IMPORT:\n  type: include\n  path: b\n")),
    (["src", "b.yml"], .file (.text "$IMPORT:\n  type: include\n  path: c\n")),
    (["src", "c.yml"], .file (.text "type: string\n"))]

/-- What is left when the second and the third template are gone. -/
def chainCut : FileSystem where
  workingDirectory := []
  entries := chainProject.take 2 ++ [(["out"], .directory),
    (["out", "a.json"], .file (.text "\x7b\"type\":\"string\"\x7d")),
    (["out", "b.json"], .file (.text "\x7b\"type\":\"string\"\x7d")),
    (["out", "c.json"], .file (.text "\x7b\"type\":\"string\"\x7d"))]

/-- The first template is built, the two others are removed, and the loop is told of that. -/
def chainLoop : WatchLoop :=
  (WatchLoop.start (plainSession chainProject) plainConfiguration).after
    [.move (.change ⟨"/src/a.yml"⟩), .move .tick, .move (.edit chainCut),
      .move (.event ⟨.remove, [⟨"/src/b.yml"⟩, ⟨"/src/c.yml"⟩]⟩)]

theorem chainLoop_facts :
    chainLoop.deletions = [⟨"/src/b.yml"⟩, ⟨"/src/c.yml"⟩] ∧
    chainLoop.bench.session.imports.edges =
      [⟨⟨"/src/a.yml"⟩, ⟨"/src/b.yml"⟩⟩, ⟨⟨"/src/b.yml"⟩, ⟨"/src/c.yml"⟩⟩] ∧
    chainLoop.bench.files.isDirectory
      (chainLoop.bench.session.layout.outputFor ⟨"/src/b.yml"⟩) = false ∧
    (∀ e ∈ chainLoop.bench.session.imports.edges, e.importer.same ⟨"/src/a.yml"⟩ = true →
      chainLoop.bench.files.isFile e.importer = true) ∧
    chainLoop.tick.2.deletions = [⟨"/src/c.yml"⟩] ∧
    chainLoop.tick.2.bench.session.imports.edges = [] := by
  decide +kernel

/-- The second template goes before the third, and the first one is queued for both of them. -/
theorem deletions_prepare_chain :
    chainLoop.tick.1 = .deleted ⟨"/src/b.yml"⟩ ∧
    chainLoop.Retires ⟨"/src/b.yml"⟩ [⟨"/src/c.yml"⟩] chainLoop.tick.2 ∧
    Dependencies.hasPath chainLoop.tick.2.tick.2.changes ⟨"/src/a.yml"⟩ = true := by
  obtain ⟨queue, edges, plain, here, left, gone⟩ := chainLoop_facts
  obtain ⟨one, several⟩ := chainLoop.deletions_prepare
  obtain ⟨deleted, retires⟩ := one _ _ queue plain
  have survives : chainLoop.tick.2.Survives ⟨"/src/a.yml"⟩ := by
    unfold WatchLoop.Survives
    rw [gone]
    simp
  refine ⟨deleted, retires, several ⟨"/src/a.yml"⟩ [⟨"/src/b.yml"⟩, ⟨"/src/c.yml"⟩] _
    (.deletion queue here (.deletion left survives (.done _))) (by decide)
    ⟨⟨"/src/c.yml"⟩, by simp, ?_⟩⟩
  have first : chainLoop.bench.session.imports.Has ⟨"/src/a.yml"⟩ ⟨"/src/b.yml"⟩ :=
    ⟨⟨⟨"/src/a.yml"⟩, ⟨"/src/b.yml"⟩⟩, by simp [edges], same_self _, same_self _⟩
  have second : chainLoop.bench.session.imports.Has ⟨"/src/b.yml"⟩ ⟨"/src/c.yml"⟩ :=
    ⟨⟨⟨"/src/b.yml"⟩, ⟨"/src/c.yml"⟩⟩, by simp [edges], same_self _, same_self _⟩
  exact .tail (.single first) second

end SchemaLoom
