import SchemaLoom.Program
import SchemaLoom.Proofs.Watch.Dependents
import SchemaLoom.Proofs.Watch.Ticks

/-!
# Batches of a project

The first build and every batch of the watch loop leave the source tree as it was, and the import
graph with edges between templates only. A batch without failures leaves its templates current, and
those that were current before.
-/

namespace SchemaLoom

open SchemaLoom.Path FileSystem

variable {A : Path → Prop} {S T : Place} {base w v u start : Workbench} {p : Path}
  {paths : List Path} {c : Configuration}

/-! ## What a batch leaves -/

/-- The source tree is what it was, and the import graph joins templates only. -/
structure Leaves (A : Path → Prop) (T : Place) (w v : Workbench) : Prop where
  akin : Akin T w v
  edges : v.session.imports.Joins A

theorem Leaves.quiet (h : Leaves A T w v) (hq : Quiet v u) : Leaves A T w u := by
  refine ⟨h.akin.trans (.quiet h.akin.files hq), ?_⟩
  obtain ⟨-, diagnostics, session⟩ := hq
  rw [session]
  exact h.edges

theorem compileBatch_leaves (setting : Setting A S T base)
    (edges : base.session.imports.Joins A) (admitted : ∀ p ∈ paths, A p) :
    Leaves A T base (base.compileBatch paths).2 := by
  have upheld := compileBatch_upheld setting edges admitted
  have fresh : Akin T base base.newGeneration := .of_session setting.sound.files rfl rfl rfl rfl rfl
  exact ⟨fresh.trans (.of_upheld setting.sound.newGeneration upheld), upheld.edges⟩

theorem Current.quiet (setting : Setting A S T w) (hq : Quiet w v) (hp : A p)
    (h : Current A w p) : Current A v p := by
  apply h.of_session setting (.quiet setting.sound.files hq) hq.1 _ hp
  obtain ⟨-, diagnostics, session⟩ := hq
  rw [session]

/-! ## Before the source tree is built -/

/-- The workbench on which a full build builds the source tree. -/
def Workbench.cleaned (w : Workbench) (c : Configuration) : Except BuildFailure Workbench :=
  if c.cleans then w.cleanOutput c else .ok w

theorem buildAll_of_error {failure : BuildFailure} (h : w.cleaned c = .error failure) :
    w.buildAll c = (.error failure, w) := by
  unfold Workbench.cleaned at h
  rw [Workbench.buildAll, h]

theorem buildAll_of_ok (h : w.cleaned c = .ok v) : w.buildAll c = v.buildSources c := by
  unfold Workbench.cleaned at h
  rw [Workbench.buildAll, h]

theorem sourceFiles_eq {files : FileSystem} {sources : List Path}
    (found : ((files.filesBelow c.source).filter fun file =>
      file.isTemplate && !ignoredFiles.contains (file.fileName?.getD "")) = sources)
    (sorted : sources.Pairwise fun p q => noLater p q = true) : c.sourceFiles files = sources := by
  unfold Configuration.sourceFiles FileSystem.templatesBelow
  rw [found]
  exact List.mergeSort_of_pairwise sorted

theorem buildSources_of_ok {sources : List Path} {total : Nat}
    (found : c.sourceFiles w.files = sources) (count : sources.length = total)
    (begun : w.say "build" s!"compiling {toString total} templates" = v)
    (ok : (v.compileBatch sources).1.isOk = true) :
    w.buildSources c =
      (.ok (), (v.compileBatch sources).2.summarize (v.compileBatch sources).1) := by
  subst begun
  unfold Workbench.buildSources
  simp only [found, count]
  exact if_pos ok

theorem cleaned_error {failure : BuildFailure} (h : w.cleaned c = .error failure)
    (files : v.files = w.files) : v.cleaned c = .error failure := by
  unfold Workbench.cleaned Workbench.cleanOutput at h ⊢
  rw [files]
  split at h
  · split at h
    · split at h
      · simp_all
      · simp at h
    · simp at h
  · simp at h

/-- The output tree was removed, or it need not be removed, or it was not there. -/
theorem cleaned_cases (output : c.output.LeadsTo T) (h : w.cleaned c = .ok v) :
    v = w ∧ (c.cleans = true → w.files.pathExists c.output = false) ∨
      c.cleans = true ∧ w.files.find c.output = .ok (T, .directory) ∧ v.session = w.session ∧
        v.files = w.files.without T.isPrefixOf := by
  unfold Workbench.cleaned Workbench.cleanOutput at h
  split at h
  · rename_i cleans
    split at h
    · split at h
      · simp at h
      · rename_i files removed
        obtain rfl := Except.ok.inj h
        unfold FileSystem.removeDirectory at removed
        split at removed
        · simp at removed
        · simp at removed
        · rename_i place found
          obtain ⟨rfl, -⟩ := find_leadsTo output found
          exact .inr ⟨cleans, found, rfl, (Except.ok.inj removed).symm⟩
    · rename_i absent
      exact .inl ⟨(Except.ok.inj h).symm, fun _ => by simpa using absent⟩
  · rename_i keeps
    exact .inl ⟨(Except.ok.inj h).symm, fun cleans => absurd cleans keeps⟩

/-! ## The source tree and its build -/

theorem FileSystem.filesBelow_eq_nil {fs : FileSystem} {p : Path} {place : Place}
    (h : p.LeadsTo place) (root : fs.entry? place = some .directory)
    (missing : fs.find p ≠ .ok (place, .directory)) : fs.filesBelow p = [] := by
  unfold FileSystem.filesBelow
  split
  · rename_i base found
    obtain ⟨rfl, -⟩ := find_leadsTo h found
    exact absurd found missing
  · rename_i found
    obtain ⟨rfl, there⟩ := find_leadsTo h found
    simp [root] at there
  · rfl

theorem quiet_buildSources (w : Workbench) (c : Configuration) : ∃ message, Quiet
    ((w.say "build" message).compileBatch (c.sourceFiles w.files)).2 (w.buildSources c).2 := by
  refine ⟨s!"compiling {toString (c.sourceFiles w.files).length} templates", ?_⟩
  unfold Workbench.buildSources
  dsimp only
  split <;> exact quiet_summarize _ _

namespace Workbench.Sound

variable (sound : w.Sound S T)
include sound

theorem sourceFile (layout : w.session.layout = c.layout) {p : Path}
    (mem : p ∈ c.sourceFiles w.files) :
    ∃ names, ValidPlace (S ++ names) ∧ p = pathOf (S ++ names) := by
  unfold Configuration.sourceFiles at mem
  rw [mem_templatesBelow, sound.source layout] at mem
  by_cases find : w.files.find (pathOf S) = .ok (S, .directory)
  · obtain ⟨names, contents, rfl, file⟩ := (mem_filesBelow sound.files find).mp mem.1
    exact ⟨names, sound.files.names _ file, rfl⟩
  · rw [filesBelow_eq_nil (leadsTo_pathOf sound.trees.valid) sound.root find] at mem
    exact absurd mem.1 List.not_mem_nil

theorem admits (layout : w.session.layout = c.layout) :
    ∀ p ∈ c.sourceFiles w.files, Admits T p := by
  intro p mem
  obtain ⟨names, valid, rfl⟩ := sound.sourceFile layout mem
  exact ⟨_, valid, rfl, sound.trees.apart.below.not_inside⟩

theorem sourceFiles (layout : w.session.layout = c.layout) {fs' : FileSystem}
    (similar : Similar T w.files fs') (files : WellFormed fs') :
    c.sourceFiles fs' = c.sourceFiles w.files := by
  have leads := leadsTo_pathOf sound.trees.valid
  have apart := sound.trees.apart
  have same := similar.find_directory sound.files files leads apart
  unfold Configuration.sourceFiles
  rw [sound.source layout]
  by_cases find : w.files.find (pathOf S) = .ok (S, .directory)
  · exact similar.templatesBelow sound.files files leads apart find
  · unfold FileSystem.templatesBelow
    rw [filesBelow_eq_nil leads sound.root find,
      filesBelow_eq_nil leads ((similar.directory S apart).mpr sound.root)
        (mt same.mp find)]

theorem batch {paths : List Path} (admitted : ∀ p ∈ paths, Admits T p) :
    Unchanged T w (w.compileBatch paths).2 :=
  (sound.toRooted.steady (fun _ => id) sound.finds).compileAll
    ((Unchanged.refl w).modifySession rfl rfl rfl rfl) admitted fun _ _ _ => id

theorem say (part message : String) : (w.say part message).Sound S T :=
  ⟨⟨sound.trees, sound.files, sound.root⟩, sound.docs⟩

section

variable (layout : w.session.layout = c.layout)
include layout

theorem wrote_buildSources : Unchanged T w (w.buildSources c).2 := by
  obtain ⟨message, ran⟩ := quiet_buildSources w c
  have said : Unchanged T w (w.say "build" message) :=
    (Unchanged.refl w).quiet (Compile.quiet_say w _ _)
  exact said.trans (((sound.say "build" message).batch (sound.admits layout)).quiet ran)

theorem cleaned (h : w.cleaned c = .ok v) : v.session = w.session ∧ v.Sound S T := by
  rcases cleaned_cases (sound.output layout) h with ⟨rfl, -⟩ | ⟨-, -, session, files⟩
  · exact ⟨rfl, sound⟩
  · have root : v.files.entry? S = some .directory := by
      rw [files, entry?_without sound.root_ne, if_neg sound.trees.apart.2]
      exact sound.root
    exact ⟨session, ⟨session ▸ sound.trees, files ▸ sound.files.without T, root⟩,
      session ▸ sound.docs⟩

theorem cleaned_similar (h : w.cleaned c = .ok v) : Similar T w.files v.files := by
  rcases cleaned_cases (sound.output layout) h with ⟨rfl, -⟩ | ⟨-, found, -, files⟩
  · exact .refl T _
  · rw [files]
    exact similar_without sound.root_ne (fun q => List.isPrefixOf_iff_prefix.mp)
      fun _ => (find_leadsTo (sound.output layout) found).2

end

end Workbench.Sound

/-! ## The first build -/

namespace Project

variable (project : Project c S T start)
include project

theorem imports : start.session.imports = Dependencies.empty := by
  obtain ⟨registry, log, -, hw⟩ := Configuration.startSession_eq_ok.mp project.started
  rw [hw]
  rfl

theorem buildSources_leaves (akin : Akin T start w) (session : w.session = start.session) :
    Leaves (c.Compilable start) T start (w.buildSources c).2 ∧
      ((w.buildSources c).1 = .ok () →
        ∀ p ∈ c.sourceFiles start.files, Current (c.Compilable start) (w.buildSources c).2 p) := by
  have sources := project.sourceFiles akin
  unfold Workbench.buildSources
  simp only
  generalize hm : s!"compiling {toString (c.sourceFiles w.files).length} templates" = message
  have said := Compile.quiet_say w "build" message
  generalize w.say "build" message = base at said ⊢
  have akin := akin.trans (.quiet akin.files said)
  have setting := akin.setting project.setting
  have edges : base.session.imports.Joins (c.Compilable start) := by
    obtain ⟨-, diagnostics, same⟩ := said
    rw [same, session, project.imports]
    exact .empty
  have admitted : ∀ p ∈ c.sourceFiles w.files, c.Compilable start p := by
    rw [sources]
    exact fun p mem => .inl mem
  have leaves := compileBatch_leaves setting edges admitted
  have told := quiet_summarize (base.compileBatch (c.sourceFiles w.files)).2
    (base.compileBatch (c.sourceFiles w.files)).1
  have after := leaves.quiet told
  have result : Leaves (c.Compilable start) T start _ := ⟨akin.trans after.akin, after.edges⟩
  split
  · rename_i ok
    refine ⟨result, fun _ p mem => ?_⟩
    have distinct : NoSharing (c.Compilable start) base.session.layout := by
      rw [← akin.view.layout, project.layout]
      exact project.distinct
    have succeeded := compileBatch_succeeded setting distinct admitted ok
    have hp : c.Compilable start p := .inl mem
    rw [← sources] at mem
    exact (succeeded.current setting distinct hp (.inl mem)).quiet
      (leaves.akin.setting setting) told hp
  · exact ⟨result, by simp⟩

section

variable (pages : ∀ site, start.session.docs = some site → ∀ url,
  (site.page (start.buildAll c).2.files url).toOption = (site.page start.files url).toOption)
include pages

/-- Removing the output tree keeps what a compilation looks at: pages that are there behind the
build were not removed before it. -/
theorem cleaned_akin (h : start.cleaned c = .ok w) :
    Akin T start w ∧ w.session = start.session := by
  have sound := project.sound
  obtain ⟨session, sound'⟩ := sound.cleaned project.layout h
  refine ⟨⟨sound.toRooted.sameView_of_similar ?_ ?_ ?_ sound'.files
    (sound.cleaned_similar project.layout h) fun site url hs => ?_, ?_, sound'.files,
      sound.cleaned_similar project.layout h⟩, session⟩
  any_goals rw [session]
  obtain ⟨D, hD⟩ := sound.docs site hs
  have wrote := sound'.wrote_buildSources (session ▸ project.layout)
  rw [wrote.pages.page sound'.files (wrote.wellFormed sound'.files) hD url, ← buildAll_of_ok h,
    pages site hs url]

/-- After the first build without failures every template of the source tree is current. -/
theorem buildAll_leaves :
    Leaves (c.Compilable start) T start (start.buildAll c).2 ∧
      ((start.buildAll c).1 = .ok () →
        ∀ p ∈ c.sourceFiles start.files, Current (c.Compilable start) (start.buildAll c).2 p) := by
  cases hw : start.cleaned c with
  | error failure =>
    rw [buildAll_of_error hw]
    refine ⟨⟨.refl project.sound.files, ?_⟩, by simp⟩
    simp only
    rw [project.imports]
    exact .empty
  | ok w =>
    obtain ⟨akin, session⟩ := project.cleaned_akin pages hw
    rw [buildAll_of_ok hw]
    exact project.buildSources_leaves akin session

end

end Project

end SchemaLoom
