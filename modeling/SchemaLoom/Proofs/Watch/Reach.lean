import SchemaLoom.Proofs.Session.Reach
import SchemaLoom.Proofs.Watch.Delivery
import SchemaLoom.Proofs.Watch.Rebuilding

/-!
# How far the loop reaches

Whatever is asked of a session and of the loop on it, in any order and with any changes to the files
in between, no file changes but outputs, and only a full build that cleans removes more: the output
root. The queues hold templates of the source tree. Only an importer of a deleted template may stand
outside, beside the source root and with the root's name.
-/

namespace SchemaLoom

open SchemaLoom.Path FileSystem Compile

variable {A : Path → Prop} {c : Configuration} {l : WatchLoop} {S T place : Place}
  {files : FileSystem} {w v : Workbench} {p : Path} {operations : List Operation}

/-! ## Operations -/

/-- What can be asked of a session and of the loop on it. -/
inductive Operation where
  | compile (path : Path)
  | batch (paths : List Path)
  | buildAll
  | move (m : Move)

/-- The paths that a loop is told of. -/
def Move.paths : Move → List Path
  | .change path | .removal path => [path]
  | .event e => e.paths
  | .markFailed | .edit _ | .tick => []

namespace WatchLoop

def move (l : WatchLoop) : Move → WatchLoop
  | .change path => l.enqueueChange path
  | .removal path => l.enqueueRemoval path
  | .event event => l.intake event
  | .markFailed => l.markFailed
  | .edit files => { l with bench := { l.bench with files } }
  | .tick => l.tick.2

def perform (l : WatchLoop) : Operation → WatchLoop
  | .compile path => { l with bench := (l.bench.compile path).2 }
  | .batch paths => { l with bench := (l.bench.compileBatch paths).2 }
  | .buildAll => { l with bench := (l.bench.buildAll l.configuration).2 }
  | .move m => l.move m

/-- The loop after a run. -/
def after (l : WatchLoop) (operations : List Operation) : WatchLoop := operations.foldl perform l

end WatchLoop

/-- Well-formed files in which a source root is no file. -/
structure FileSystem.Hosts (S : Place) (files : FileSystem) : Prop where
  wellFormed : WellFormed files
  root : ∀ contents, files.entry? S ≠ some (.file contents)

theorem FileSystem.Hosts.of_directory (wf : WellFormed files)
    (root : files.entry? S = some .directory) : files.Hosts S :=
  ⟨wf, by simp [root]⟩

theorem FileSystem.Hosts.without (h : files.Hosts S) (below : S ≠ []) (T : Place) :
    (files.without T.isPrefixOf).Hosts S := by
  refine ⟨h.wellFormed.without T, fun contents file => ?_⟩
  by_cases top : T = []
  · subst top
    simp [entry?_without_nil below] at file
  · rw [entry?_without top] at file
    split at file
    · simp at file
    · exact h.root contents file

namespace Operation

/-- The templates that are to be compiled. -/
def compiles : Operation → List Path
  | .compile path => [path]
  | .batch paths => paths
  | .buildAll | .move _ => []

/-- The paths that come with an operation. -/
def paths : Operation → List Path
  | .move m => m.paths
  | o => o.compiles

/-- All paths are absolute and without `..`, and files may be put there in which the source root is
no file. -/
structure Allowed (S : Place) (o : Operation) : Prop where
  paths : ∀ p ∈ o.paths, p.isAbsolute = true ∧ .up ∉ p.components
  files : ∀ files, o = .move (.edit files) → files.Hosts S

/-- The files that an operation starts from: those that are put there, and in a full build what it
leaves when it removes the output root. -/
def ground (c : Configuration) (T : Place) (files : FileSystem) : Operation → FileSystem
  | .buildAll =>
    if c.cleans && files.isDirectory c.output then files.without T.isPrefixOf else files
  | .move (.edit files) => files
  | _ => files

theorem ground_tick (c : Configuration) (T : Place) (files : FileSystem) :
    (Operation.move .tick).ground c T files = files := rfl

theorem ground_of_cleaned (output : c.output.LeadsTo T) (h : w.cleaned c = .ok v) :
    Operation.buildAll.ground c T w.files = v.files ∧ v.session = w.session := by
  rcases cleaned_cases output h with ⟨rfl, absent⟩ | ⟨cleans, found, session, files⟩
  · refine ⟨if_neg fun both => ?_, rfl⟩
    obtain ⟨cleans, directory⟩ := Bool.and_eq_true_iff.mp both
    obtain ⟨place, found⟩ := isDirectory_iff.mp directory
    simpa [pathExists, found] using absent cleans
  · exact ⟨(if_pos (by simp [cleans, isDirectory, found])).trans files.symm, session⟩

theorem ground_of_error {failure : BuildFailure} (h : w.cleaned c = .error failure) :
    Operation.buildAll.ground c T w.files = w.files := by
  refine if_neg fun both => ?_
  obtain ⟨cleans, directory⟩ := Bool.and_eq_true_iff.mp both
  obtain ⟨place, found⟩ := isDirectory_iff.mp directory
  simp [Workbench.cleaned, Workbench.cleanOutput, cleans, pathExists, removeDirectory, found] at h

end Operation

/-! ## Templates of the source tree -/

section

variable (roots : c.layout.Roots S T) (wf : WellFormed files)
include roots wf

theorem sourceFiles_below : ∀ p ∈ c.sourceFiles files, TemplateBelow S p := by
  intro p mem
  obtain ⟨mem, template, -⟩ := mem_templatesBelow.mp mem
  have source : c.source.LeadsTo S := roots.source
  cases found : files.find c.source with
  | error cause => simp [filesBelow, found] at mem
  | ok there =>
    obtain ⟨base, entry⟩ := there
    obtain ⟨rfl, -⟩ := find_leadsTo source found
    cases entry with
    | file contents =>
      -- The root itself is no template.
      obtain rfl : p = c.source := by simpa [filesBelow, found] using mem
      simp [roots.isTemplate_eq_false source] at template
    | directory =>
      rw [filesBelow_of_find found, List.mem_filterMap] at mem
      obtain ⟨⟨q, entry⟩, mem, named⟩ := mem
      cases entry with
      | directory => exact absurd named (by simp [ofFile])
      | file contents =>
        obtain ⟨names, hn, rfl⟩ := Option.map_eq_some_iff.mp named
        obtain rfl := namesBelow?_eq_some.mp hn
        have leads := leadsTo_extended source (wf.names _ mem).right
        exact ⟨template, _, leads, roots.inside leads template (List.prefix_append base names)⟩

omit wf in
theorem categorize_template (leads : p.LeadsTo place) (h : c.categorize files p = .template) :
    TemplateBelow S (files.normalizePath p) := by
  have normal : (files.normalizePath p).LeadsTo place := normalizePath_leadsTo leads
  unfold Configuration.categorize at h
  split at h
  · simp at h
  · dsimp only at h
    split at h
    · simp at h
    · split at h
      · rename_i both
        obtain ⟨begins, template⟩ := Bool.and_eq_true_iff.mp both
        exact ⟨template, place, normal,
          roots.inside normal template ((normal.startsWith_iff roots.source).mp begins)⟩
      · simp at h

end

/-! ## What every operation keeps -/

/-- The loop stays with its configuration, and its queues hold admitted templates only. -/
structure WatchLoop.Bounded (A : Path → Prop) (c : Configuration) (S : Place) (l : WatchLoop) :
    Prop where
  configured : l.configuration = c
  bench : l.bench.Orderly A c.layout
  root : ∀ contents, l.bench.files.entry? S ≠ some (.file contents)
  changes : ∀ p ∈ l.changes, A p
  deletions : ∀ p ∈ l.deletions, TemplateBelow S p

/-- An operation that starts from these files ends in a bounded loop, and only outputs changed. -/
def WatchLoop.Ends (A : Path → Prop) (c : Configuration) (S T : Place) (files : FileSystem)
    (l : WatchLoop) : Prop :=
  l.Bounded A c S ∧ OutputsOnly T files l.bench.files

namespace WatchLoop.Bounded

section

variable (h : l.Bounded A c S)
include h

theorem ends (roots : c.layout.Roots S T)
    (from_ : ∀ contents, files.entry? S ≠ some (.file contents))
    (orderly : v.Orderly A c.layout) (outputs : OutputsOnly T files v.files) :
    WatchLoop.Ends A c S T files { l with bench := v } :=
  ⟨⟨h.configured, orderly, fun contents file =>
    from_ contents ((outputs S roots.not_outputPlace contents).mp file), h.changes, h.deletions⟩,
    outputs⟩

theorem markFailed : l.markFailed.Bounded A c S :=
  ⟨h.configured, h.bench, h.root, h.changes, h.deletions⟩

theorem edit (hosts : files.Hosts S) :
    ({ l with bench := { l.bench with files } } : WatchLoop).Bounded A c S :=
  ⟨h.configured, ⟨h.bench.layout, hosts.wellFormed, h.bench.edges⟩, hosts.root, h.changes,
    h.deletions⟩

theorem checkRegistry :
    l.checkRegistry.Bounded A c S ∧ l.checkRegistry.bench.files = l.bench.files := by
  obtain ⟨bench, checked, files, ⟨registry, session⟩, -⟩ := l.checkRegistry_cases
  rw [checked]
  exact ⟨⟨h.configured, h.bench.congr (by rw [session]) files (by rw [session]), files ▸ h.root,
    h.changes, h.deletions⟩, files⟩

variable (roots : c.layout.Roots S T) (scope : Scope A S)
include roots scope

theorem enqueueChange (leads : p.LeadsTo place) : (l.enqueueChange p).Bounded A c S := by
  unfold WatchLoop.enqueueChange
  split
  · rename_i template
    have queued : TemplateBelow S (l.bench.files.normalizePath p) :=
      categorize_template roots leads (h.configured ▸ template)
    refine ⟨h.configured, h.bench, h.root, ?_, h.deletions⟩
    exact List.forall_mem_append.mpr ⟨h.changes, List.forall_mem_singleton.mpr (scope.below queued)⟩
  · exact ⟨h.configured, h.bench, h.root, h.changes, h.deletions⟩
  · exact h

omit scope in
theorem enqueueRemoval (leads : p.LeadsTo place) : (l.enqueueRemoval p).Bounded A c S := by
  unfold WatchLoop.enqueueRemoval
  split
  · rename_i template
    have queued : TemplateBelow S (l.bench.files.normalizePath p) :=
      categorize_template roots leads (h.configured ▸ template)
    refine ⟨h.configured, h.bench, h.root, h.changes, ?_⟩
    exact List.forall_mem_append.mpr ⟨h.deletions, List.forall_mem_singleton.mpr queued⟩
  · exact ⟨h.configured, h.bench, h.root, h.changes, h.deletions⟩
  · exact h

theorem intakePath (kind : EventKind) (leads : p.LeadsTo place) :
    (intakePath kind l p).Bounded A c S := by
  unfold WatchLoop.intakePath
  split
  · exact h.enqueueRemoval roots leads
  · exact h.enqueueChange roots scope leads

theorem plan_admitted : ∀ p ∈ l.plan.1, A p := by
  by_cases all : l.rebuildsAll = true ∨ l.lastFailed = true
  · rw [plan_of_all all, h.configured]
    exact fun p mem => scope.below (sourceFiles_below roots h.bench.files p mem)
  · rw [not_or, Bool.not_eq_true, Bool.not_eq_true] at all
    rw [plan_of_partly all.1 all.2]
    exact withDependents_admitted h.changes h.bench.edges

theorem build : l.build.2.Ends A c S T l.bench.files := by
  obtain ⟨bench, -, built⟩ := l.build_cases
  have quiet := l.build_quiet
  rw [built] at quiet ⊢
  have said : (l.bench.say "watch" l.plan.2).Orderly A c.layout := h.bench.congr rfl rfl rfl
  obtain ⟨orderly, outputs⟩ :=
    compileBatch_orderly roots scope said h.root (h.plan_admitted roots scope)
  obtain ⟨bounded, outputs⟩ := h.ends roots h.root (orderly.quiet quiet) (quiet.1 ▸ outputs)
  exact ⟨⟨bounded.configured, bounded.bench, bounded.root, by simp, bounded.deletions⟩, outputs⟩

omit scope in
/-- A deletion queues importers and removes one output. -/
theorem delete (below : TemplateBelow S p) : (l.delete p).Ends A c S T l.bench.files := by
  obtain ⟨session, removed⟩ := l.delete_bench p
  obtain ⟨bench, deleted⟩ := l.delete_cases p
  rw [deleted] at session removed ⊢
  dsimp only at session removed
  have outputs : OutputsOnly T l.bench.files bench.files ∧ WellFormed bench.files := by
    rcases removed with same | removed
    · rw [same]
      exact ⟨.refl _, h.bench.files⟩
    · refine ⟨.of_removeFile removed fun o contents found => ?_, h.bench.files.removeFile removed⟩
      obtain ⟨-, place, leads, inside⟩ := below
      obtain ⟨s, rest, rfl⟩ := Inside.iff.mp inside
      rw [h.bench.layout] at found
      exact roots.outputPlace leads (by simp) inside.2 found
  have orderly : bench.Orderly A c.layout :=
    ⟨by rw [session]; exact h.bench.layout, outputs.2, by
      rw [session]
      exact h.bench.edges.subset (l.bench.session.imports.remove_subset p)⟩
  obtain ⟨bounded, outputs⟩ := h.ends roots h.root orderly outputs.1
  refine ⟨⟨bounded.configured, bounded.bench, bounded.root, ?_, bounded.deletions⟩, outputs⟩
  refine List.forall_mem_append.mpr ⟨h.changes, fun q mem => ?_⟩
  obtain ⟨e, edge, rfl⟩ := Dependencies.exists_importer (List.mem_filter.mp mem).1
  exact (h.bench.edges e edge).1

theorem tick : l.tick.2.Ends A c S T l.bench.files := by
  rcases l.tick_cases with ⟨source, rest, queue, ticked⟩ | ⟨-, -, ticked⟩ | ⟨-, -, ticked⟩
  · have queued := h.deletions
    rw [queue, List.forall_mem_cons] at queued
    have later : ({ l with deletions := rest } : WatchLoop).Bounded A c S :=
      ⟨h.configured, h.bench, h.root, h.changes, queued.2⟩
    simpa only [ticked] using later.delete roots queued.1
  · rw [ticked]
    exact ⟨h, .refl _⟩
  · obtain ⟨checked, files⟩ := h.checkRegistry
    simpa only [ticked, files] using checked.build roots scope

theorem buildAll : ({ l with bench := (l.bench.buildAll c).2 } : WatchLoop).Ends A c S T
    (Operation.buildAll.ground c T l.bench.files) := by
  cases cleaned : l.bench.cleaned c with
  | error failure =>
    rw [buildAll_of_error cleaned, Operation.ground_of_error cleaned]
    exact ⟨h, .refl _⟩
  | ok v =>
    obtain ⟨files, session⟩ := Operation.ground_of_cleaned roots.output cleaned
    rw [buildAll_of_ok cleaned, files]
    obtain ⟨wf, root⟩ : v.files.Hosts S := by
      have hosts : l.bench.files.Hosts S := ⟨h.bench.files, h.root⟩
      rcases cleaned_cases roots.output cleaned with ⟨rfl, -⟩ | ⟨-, -, -, gone⟩
      · exact hosts
      · exact gone ▸ hosts.without roots.below T
    have orderly : v.Orderly A c.layout :=
      ⟨by rw [session]; exact h.bench.layout, wf, by rw [session]; exact h.bench.edges⟩
    obtain ⟨message, ran⟩ := quiet_buildSources v c
    have said : (v.say "build" message).Orderly A c.layout := orderly.congr rfl rfl rfl
    obtain ⟨orderly, outputs⟩ := compileBatch_orderly roots scope said root fun p mem =>
      scope.below (sourceFiles_below roots wf p mem)
    exact h.ends roots root (orderly.quiet ran) (ran.1 ▸ outputs)

theorem intake (event : WatchEvent) (leads : ∀ p ∈ event.paths, ∃ place, p.LeadsTo place) :
    (l.intake event).Bounded A c S := by
  unfold WatchLoop.intake
  generalize event.paths = paths at leads ⊢
  induction paths generalizing l with
  | nil => exact h
  | cons p paths ih =>
    obtain ⟨⟨place, here⟩, rest⟩ := List.forall_mem_cons.mp leads
    exact ih (h.intakePath roots scope event.kind here) rest

theorem move {m : Move} (allowed : (Operation.move m).Allowed S) :
    (l.move m).Ends A c S T ((Operation.move m).ground c T l.bench.files) := by
  have leads : ∀ p ∈ m.paths, ∃ place, p.LeadsTo place := fun p mem =>
    leadsTo_of_not_mem_up (allowed.paths p mem).1 (allowed.paths p mem).2
  -- What is told only changes the queues.
  have told : ∀ {l' news}, l'.Bounded A c S → l.Learns news l' →
      l'.Ends A c S T l.bench.files := fun bounded learns =>
    ⟨bounded, learns.bench ▸ .refl _⟩
  cases m with
  | change path =>
    obtain ⟨place, here⟩ := leads path List.mem_cons_self
    exact told (h.enqueueChange roots scope here) (l.enqueueChange_learns path)
  | removal path =>
    obtain ⟨place, here⟩ := leads path List.mem_cons_self
    exact told (h.enqueueRemoval roots here) (l.enqueueRemoval_learns path)
  | event event => exact told (h.intake roots scope event leads) (l.intake_learns event)
  | markFailed => exact ⟨h.markFailed, .refl _⟩
  | edit files => exact ⟨h.edit (allowed.files files rfl), .refl _⟩
  | tick => exact h.tick roots scope

theorem perform {o : Operation} (allowed : o.Allowed S) (admitted : ∀ p ∈ o.compiles, A p) :
    (l.perform o).Ends A c S T (o.ground c T l.bench.files) := by
  cases o with
  | compile path =>
    obtain ⟨orderly, outputs⟩ :=
      compile_orderly roots scope h.bench h.root (admitted path List.mem_cons_self)
    exact h.ends roots h.root orderly outputs
  | batch paths =>
    obtain ⟨orderly, outputs⟩ := compileBatch_orderly roots scope h.bench h.root admitted
    exact h.ends roots h.root orderly outputs
  | buildAll =>
    obtain rfl := h.configured
    exact h.buildAll roots scope
  | move m => exact h.move roots scope allowed

theorem after (allowed : ∀ o ∈ operations, o.Allowed S)
    (admitted : ∀ o ∈ operations, ∀ p ∈ o.compiles, A p) : (l.after operations).Bounded A c S := by
  unfold WatchLoop.after
  induction operations generalizing l with
  | nil => exact h
  | cons o operations ih =>
    obtain ⟨first, allowed⟩ := List.forall_mem_cons.mp allowed
    obtain ⟨here, admitted⟩ := List.forall_mem_cons.mp admitted
    exact ih (h.perform roots scope first here).1 allowed admitted

end

end WatchLoop.Bounded

/-! ## Runs -/

namespace Configuration

theorem start_bounded (hosts : files.Hosts S) (started : c.startSession files = .ok w) :
    (WatchLoop.start w c).Bounded A c S := by
  obtain ⟨registry, log, -, rfl⟩ := startSession_eq_ok.mp started
  exact ⟨rfl, ⟨rfl, hosts.wellFormed, .empty⟩, hosts.root, List.forall_mem_nil _,
    List.forall_mem_nil _⟩

/-- In every run each operation changes files only strictly below the output root and only such with
the extension of outputs, apart from a full build that first removes the output root. As long as
templates are compiled by full builds and by the loop, deletions are queued of templates below the
source root only, and changes of these and of templates beside the root that have its name. -/
theorem touches_only_outputs (roots : c.layout.Roots S T) (hosts : files.Hosts S)
    (started : c.startSession files = .ok w) {next : Operation}
    (allowed : ∀ o ∈ next :: operations, o.Allowed S) :
    OutputsOnly T (next.ground c T ((WatchLoop.start w c).after operations).bench.files)
        (((WatchLoop.start w c).after operations).perform next).bench.files ∧
      ((∀ o ∈ operations, o.compiles = []) →
        (∀ p ∈ ((WatchLoop.start w c).after operations).changes,
          TemplateBelow S p ∨ TemplateBeside S p) ∧
        ∀ p ∈ ((WatchLoop.start w c).after operations).deletions, TemplateBelow S p) := by
  obtain ⟨last, earlier⟩ := List.forall_mem_cons.mp allowed
  have leads : ∀ o ∈ next :: operations, ∀ p ∈ o.compiles, ∃ place, p.LeadsTo place := by
    intro o mem p told
    have path : p ∈ o.paths := by
      cases o with
      | move m => exact absurd told List.not_mem_nil
      | compile | batch | buildAll => exact told
    obtain ⟨absolute, noUp⟩ := (allowed o mem).paths p path
    exact leadsTo_of_not_mem_up absolute noUp
  obtain ⟨leadsLast, leadsEarlier⟩ := List.forall_mem_cons.mp leads
  constructor
  · have scope : Scope (fun p => ∃ place, p.LeadsTo place) S :=
      ⟨id, fun below => below.2.imp fun _ => And.left,
        fun ⟨_, _, _, _, _, beside⟩ => ⟨_, beside⟩⟩
    have bounded := (start_bounded hosts started).after roots scope earlier leadsEarlier
    exact (bounded.perform roots scope last leadsLast).2
  · intro indirect
    have scope : Scope (fun p => TemplateBelow S p ∨ TemplateBeside S p) S := by
      refine ⟨?_, .inl, .inr⟩
      rintro p (⟨-, place, leads, -⟩ | ⟨a, s, -, e, -, leads⟩)
      · exact ⟨place, leads⟩
      · exact ⟨_, leads⟩
    have bounded := (start_bounded hosts started).after roots scope earlier fun o mem p told => by
      simp [indirect o mem] at told
    exact ⟨bounded.changes, bounded.deletions⟩

end Configuration

/-! ## A template beside the source root -/

/-- A template of the source tree includes the root, and so the template beside it that has the
root's name; that one imports the other templates. -/
def besideRoot : List (Place × Entry) :=
  [(["src.yml"], .file (.text "$IMPORT:\n  type: include\n  path: t\n")),
    (["src"], .directory),
    (["src", "b.yml"], .file (.text "$IMPORT:\n  type: include\n  path: .\n")),
    (["src", "t"], .directory),
    (["src", "t", "x.yml"], .file (.text "type: string\n"))]

/-- What is left when the templates of the source tree are gone. -/
def besideRootEmptied : FileSystem where
  workingDirectory := []
  entries := besideRoot.take 2 ++ [(["src", "t"], .directory), (["out"], .directory),
    (["out", "b.json"], .file (.text "\x7b\x7d")), (["out", "src.json"], .file (.text "\x7b\x7d")),
    (["out", "t"], .directory),
    (["out", "t", "x.json"], .file (.text "\x7b\"type\":\"string\"\x7d"))]

/-- The first template is built, and then both are removed. -/
def besideRootRun : List Operation :=
  [.move (.change ⟨"/src/b.yml"⟩), .move .tick, .move (.edit besideRootEmptied),
    .move (.event ⟨.remove, [⟨"/src/b.yml"⟩, ⟨"/src/t/x.yml"⟩]⟩), .move .tick, .move .tick]

def besideRootLoop : WatchLoop :=
  (WatchLoop.start (plainSession besideRoot) plainConfiguration).after besideRootRun

theorem besideRootRun_allowed :
    ∀ o ∈ Operation.move .tick :: besideRootRun, o.Allowed ["src"] := by
  have hosts : besideRootEmptied.Hosts ["src"] :=
    .of_directory (.ofEntries (by decide) (by decide)) (by decide)
  have plain : ∀ o ∈ Operation.move .tick :: besideRootRun, ∀ p ∈ o.paths,
      p.isAbsolute = true ∧ Component.up ∉ p.components := by decide
  intro o mem
  refine ⟨plain o mem, ?_⟩
  rintro files rfl
  simp only [besideRootRun, List.mem_cons, List.not_mem_nil, or_false] at mem
  obtain rfl : files = besideRootEmptied := by simpa using mem
  exact hosts

theorem besideRootLoop_changes : besideRootLoop.changes = [⟨"/src.yml"⟩] := by decide +kernel

/-- The template beside the root is queued, and its rebuild changes an output only. -/
theorem touches_only_outputs_besideRoot :
    OutputsOnly ["out"] besideRootLoop.bench.files
        (besideRootLoop.perform (.move .tick)).bench.files ∧
      (∀ p ∈ besideRootLoop.changes, TemplateBelow ["src"] p ∨ TemplateBeside ["src"] p) ∧
      besideRootLoop.changes = [⟨"/src.yml"⟩] := by
  have roots : plainConfiguration.layout.Roots ["src"] ["out"] :=
    ⟨by decide, by decide, by decide, by decide⟩
  have hosts : (plainSession besideRoot).files.Hosts ["src"] :=
    .of_directory (.ofEntries (by decide) (by decide)) (by decide)
  have started : plainConfiguration.startSession (plainSession besideRoot).files =
      .ok (plainSession besideRoot) := rfl
  obtain ⟨outputs, queues⟩ :=
    Configuration.touches_only_outputs roots hosts started besideRootRun_allowed
  obtain ⟨changes, -⟩ := queues (by decide)
  refine ⟨?_, ?_, besideRootLoop_changes⟩
  · rw [Operation.ground_tick] at outputs
    unfold besideRootLoop
    exact outputs
  · unfold besideRootLoop
    exact changes

end SchemaLoom
