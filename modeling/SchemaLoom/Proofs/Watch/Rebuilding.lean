import SchemaLoom.Proofs.Session.Repetition
import SchemaLoom.Proofs.Session.Residue
import SchemaLoom.Proofs.Watch.Batches
import SchemaLoom.Proofs.Watch.Intake

/-!
# Building twice

A full build on what the last one has left leaves all files as they are, whether or not the output
tree is removed first. It compiles the same templates, since outputs are not in the source tree, and
of the output tree it only matters where something can be written. Were the output tree in the
source tree, the outputs of one build would be templates of the next.
-/

namespace SchemaLoom

open SchemaLoom.Path FileSystem

variable {S T : Place} {w v u : Workbench} {c : Configuration}

/-! ## What a build finds of the last one -/

namespace FileSystem

variable {fs final : FileSystem}

theorem Between.all (h : Smaller fs final) : Between final fs final :=
  ⟨h, .refl final, fun _ => .inl rfl⟩

theorem Between.cleaned (h : Smaller fs final) (ne : T ≠ [])
    (clear : ∀ q, T <+: q → fs.entry? q = none) :
    Between final fs (final.without T.isPrefixOf) where
  later := by
    have outside : ∀ {q entry}, fs.entry? q = some entry → ¬ T <+: q := fun there inside => by
      simp [clear _ inside] at there
    refine ⟨fun q hd => ?_, fun q c hf => ?_⟩
    · rw [entry?_without ne, if_neg (outside hd)]
      exact h.directory q hd
    · rw [entry?_without ne, if_neg (outside hf)]
      exact h.file q c hf
  within := by
    have still : ∀ {q entry}, FileSystem.entry? (final.without T.isPrefixOf) q = some entry →
        final.entry? q = some entry := by
      intro q entry there
      rw [entry?_without ne] at there
      split at there
      · simp at there
      · exact there
    exact ⟨fun q hd => still hd, fun q c hf => ⟨c, still hf⟩⟩
  same q := by
    rw [entry?_without ne]
    split
    · rename_i inside
      exact .inr (clear q inside).symm
    · exact .inl rfl

/-- The files `fs'` on which a build starts when another one has led from `fs` to `final`. -/
structure Leftover (T : Place) (final fs fs' : FileSystem) : Prop where
  files : WellFormed fs'
  similar : Similar T fs fs'
  pages : SamePages fs fs'
  texts : ∀ q, ¬ Inside T q → ∀ c,
    fs'.entry? q = some (.file c) ↔ fs.entry? q = some (.file c)
  between : Between final fs fs'

end FileSystem

namespace Unchanged

theorem leftover (h : Unchanged T w u) (wf : WellFormed w.files) :
    Leftover T u.files w.files u.files :=
  ⟨h.wellFormed wf, h.files.similar, h.pages, fun _ outside _ => h.files.file_iff outside,
    .all h.files.smaller⟩

theorem leftover_cleaned (h : Unchanged T w u) (wf : WellFormed w.files) (ne : T ≠ [])
    (clear : ∀ q, T <+: q → w.files.entry? q = none) (root : u.files.entry? T = some .directory) :
    Leftover T u.files w.files (u.files.without T.isPrefixOf) := by
  have kept : ∀ q c, (T <+: q ∨ (u.files.entry? q = some (.file c) ↔
      w.files.entry? q = some (.file c))) →
      (FileSystem.entry? (u.files.without T.isPrefixOf) q = some (.file c) ↔
        w.files.entry? q = some (.file c)) := by
    intro q c cases
    rw [entry?_without ne]
    split
    · rename_i inside
      simp [clear q inside]
    · rename_i outside
      exact cases.resolve_left outside
  refine ⟨(h.wellFormed wf).without T, h.files.similar.trans (similar_without ne
    (fun q => List.isPrefixOf_iff_prefix.mp) fun _ => root),
    fun q other c => kept q c (.inr (h.pages q other c)), fun q outside c => kept q c ?_,
    .cleaned h.files.smaller ne clear⟩
  exact .inr (h.files.file_iff outside)

end Unchanged

/-! ## The templates of the source tree -/

theorem Workbench.SameSettings.congr (h : w.SameSettings v) {w' v' : Workbench}
    (left : w'.session = w.session) (right : v'.session = v.session) : w'.SameSettings v' := by
  constructor <;> rw [left, right]
  exacts [h.layout, h.registry, h.docs, h.isPretty]

namespace Workbench.Sound

variable (sound : w.Sound S T)
include sound

theorem twins (settings : w.SameSettings v) {final : FileSystem}
    (left : Leftover T final w.files v.files) : Twins S T w v := by
  refine ⟨sound, ⟨⟨settings.layout ▸ sound.trees, left.files, ?_⟩,
    settings.docs ▸ sound.docs⟩, ?_, settings.isPretty, ?_⟩
  · exact (left.similar.directory S sound.trees.apart).mpr sound.root
  · refine sound.toRooted.sameView_of_similar settings.layout settings.registry settings.docs
      left.files left.similar fun site url hs => ?_
    obtain ⟨D, hD⟩ := sound.docs site hs
    exact left.pages.page sound.files left.files hD url
  · rintro p ⟨place, valid, rfl, outside⟩ document
    exact readTemplate_congr fun s => readText_congr sound.files left.files
      (leadsTo_pathOf valid) (left.texts place outside)

end Workbench.Sound

/-! ## Building the source tree again -/

namespace Workbench.Sound

variable (sound : w.Sound S T) (layout : w.session.layout = c.layout)
include sound

include layout

theorem buildSources_again (settings : w.SameSettings v)
    (left : Leftover T (w.buildSources c).2.files w.files v.files) (q : Place) :
    (v.buildSources c).2.files.entry? q = (w.buildSources c).2.files.entry? q := by
  obtain ⟨message, ran⟩ := quiet_buildSources w c
  obtain ⟨message', ran'⟩ := quiet_buildSources v c
  rw [sound.sourceFiles layout left.similar left.files] at ran'
  rw [ran.1] at left ⊢
  rw [ran'.1]
  have said : (w.say "build" message).SameSettings (v.say "build" message') :=
    settings.congr rfl rfl
  have twins := (sound.say "build" message).twins said left
  exact twins.compileBatch (sound.admits layout) left.between q

end Workbench.Sound

/-! ## Removing the output tree first -/

/-- A tree that is found later only has nothing in it before. -/
theorem FileSystem.Smaller.clear {fs fs' : FileSystem} {p : Path} (h : Smaller fs fs')
    (wf : WellFormed fs) (leads : p.LeadsTo T) (absent : fs.pathExists p = false)
    (found : fs'.find p = .ok (T, .directory)) : ∀ q, T <+: q → fs.entry? q = none := by
  have free : fs.entry? T = none := by
    cases there : fs.entry? T with
    | none => rfl
    | some entry =>
      have directory : entry = .directory := by
        cases entry with
        | directory => rfl
        | file c =>
          obtain ⟨c', file⟩ := h.file T c there
          simp [(find_leadsTo leads found).2] at file
      have before := find_transfer wf leads found there fun _ => directory
      simp [pathExists, before] at absent
  rintro q ⟨rest, rfl⟩
  by_contra there
  by_cases here : rest = []
  · exact there (by rw [here, List.append_nil, free])
  · simp [wf.ancestors here there] at free

namespace Workbench.Sound

variable (sound : w.Sound S T) (layout : w.session.layout = c.layout)
include sound

include layout

/-- A full build leaves the files that the last one has left, whatever the session has done in
between. -/
theorem buildAll_again (settings : w.SameSettings v) (files : v.files = (w.buildAll c).2.files)
    (q : Place) : (v.buildAll c).2.files.entry? q = (w.buildAll c).2.files.entry? q := by
  have output := sound.output layout
  cases first : w.cleaned c with
  | error failure =>
    rw [buildAll_of_error first] at files ⊢
    rw [buildAll_of_error (cleaned_error first files), files]
  | ok w' =>
    obtain ⟨session, sound'⟩ := sound.cleaned layout first
    have layout' : w'.session.layout = c.layout := session ▸ layout
    have wrote := sound'.wrote_buildSources layout'
    rw [buildAll_of_ok first] at files ⊢
    cases second : v.cleaned c with
    | error failure => rw [buildAll_of_error second, files]
    | ok v' =>
      rw [buildAll_of_ok second]
      rcases cleaned_cases output second with ⟨rfl, -⟩ | ⟨cleans, found, session', removed⟩
      · exact sound'.buildSources_again layout' (settings.congr session rfl)
          (files ▸ wrote.leftover sound'.files) q
      · rw [files] at found removed
        -- The first build has started without an output tree as well.
        have clear : ∀ q, T <+: q → w'.files.entry? q = none := by
          rcases cleaned_cases output first with ⟨rfl, absent⟩ | ⟨-, -, -, before⟩
          · exact wrote.files.smaller.clear sound'.files output (absent cleans) found
          · intro q inside
            rw [before, entry?_without sound.root_ne, if_pos inside]
        have left := wrote.leftover_cleaned sound'.files sound.root_ne clear
          (find_leadsTo output found).2
        exact sound'.buildSources_again layout' (settings.congr session session')
          (removed ▸ left) q

theorem buildAll_settings : w.SameSettings (w.buildAll c).2 := by
  cases first : w.cleaned c with
  | error failure =>
    rw [buildAll_of_error first]
    exact ⟨rfl, rfl, rfl, rfl⟩
  | ok w' =>
    obtain ⟨session, sound'⟩ := sound.cleaned layout first
    have wrote := sound'.wrote_buildSources (session ▸ layout)
    rw [buildAll_of_ok first]
    exact .congr ⟨wrote.layout, wrote.registry, wrote.docs, wrote.isPretty⟩ session.symm rfl

end Workbench.Sound

/-! ## Loaded configurations -/

namespace Configuration

variable {files : FileSystem} {options : CommandLine.Options}

theorem fault?_eq_none (h : c.fault? files = none) : files.isDirectory c.source = true ∧
    c.source.startsWith c.output = false ∧
      ∀ root, c.docsRoot = some root → files.isDirectory root = true := by
  unfold fault? at h
  split at h
  · simp at h
  · split at h
    · simp at h
    · split at h
      · simp at h
      · rename_i directory outside
        refine ⟨by simpa using directory, by simpa using outside, fun root hr => ?_⟩
        split at h
        · simp at h
        · rw [hr] at h
          simpa [Option.filter] using h

theorem gather_eq_ok (h : gather files options = .ok c) :
    ∃ given root file, c = locate files root file given := by
  unfold gather at h
  simp only at h
  split at h
  · simp at h
  · exact ⟨_, _, _, (Except.ok.inj h).symm⟩

theorem load_eq_ok (h : load files options = .ok c) : c.fault? files = none ∧
    ∃ given root file, c = locate files root file given := by
  unfold load at h
  split at h
  · simp at h
  · rename_i gathered hg
    split at h
    · simp at h
    · rename_i faultless
      obtain rfl := Except.ok.inj h
      exact ⟨faultless, gather_eq_ok hg⟩

/-- In a session of a configuration that was loaded, the source root and the root of the
documentation are directories with canonical paths. -/
theorem sound_of_load (wf : WellFormed files) (loaded : load files options = .ok c)
    (started : c.startSession files = .ok w) (normal : c.output.LeadsTo T)
    (outside : c.output.startsWith c.source = false) :
    w.session.layout = c.layout ∧ ∃ S, w.Sound S T := by
  obtain ⟨faultless, given, root, file, rfl⟩ := load_eq_ok loaded
  obtain ⟨directory, around, pages⟩ := fault?_eq_none faultless
  have absolute : ∀ p, ((files.normalizePath root).join p).isAbsolute = true := fun p =>
    join_isAbsolute p (isAbsolute_normalizePath files root)
  obtain ⟨S, valid, source, there⟩ := wf.normalizePath_directory (absolute given.source) directory
  obtain ⟨registry, log, -, rfl⟩ := startSession_eq_ok.mp started
  have leads : (locate files root file given).source.LeadsTo S := by
    rw [LeadsTo, show (locate files root file given).source = pathOf S from source]
    exact leadsTo_pathOf valid
  refine ⟨rfl, S, ⟨⟨source, valid, normal, ?_, ?_⟩, wf, there⟩, ?_⟩
  · rw [← normal.startsWith_iff leads, outside]
    exact Bool.false_ne_true
  · rw [← leads.startsWith_iff normal, around]
    exact Bool.false_ne_true
  · intro site hs
    obtain ⟨docs, hd, rfl⟩ := Option.map_eq_some_iff.mp hs
    obtain ⟨given', -, rfl⟩ := Option.map_eq_some_iff.mp hd
    obtain ⟨D, valid', canonical, -⟩ := wf.normalizePath_directory (absolute given') (pages _ hd)
    exact ⟨D, canonical ▸ leadsTo_pathOf valid'⟩

/-- Two full builds in a row leave the files that the first of them leaves, whether or not they
remove the output tree first, if the output root is not in the source tree. -/
theorem buildAll_idempotent (wf : WellFormed files) (loaded : load files options = .ok c)
    (started : c.startSession files = .ok w) (normal : c.output.LeadsTo T)
    (outside : c.output.startsWith c.source = false) (q : Place) :
    ((w.buildAll c).2.buildAll c).2.files.entry? q = (w.buildAll c).2.files.entry? q := by
  obtain ⟨layout, S, sound⟩ := sound_of_load wf loaded started normal outside
  exact sound.buildAll_again layout (sound.buildAll_settings layout) rfl q

end Configuration

/-! ## A project with an output of a template that is gone -/

/-- A template, and an output tree with an old output in it. -/
def staleProject : FileSystem where
  workingDirectory := []
  entries := [(["src"], .directory), (["src", "a.yml"], .file (.text "title: a\n")),
    (["out"], .directory), (["out", "b.json"], .file (.text "[]"))]

/-- Outputs go to `/out`, which is removed first. -/
def cleaningOptions : CommandLine.Options :=
  { CommandLine.Options.none with source := some ⟨"src"⟩, output := some ⟨"out"⟩, cleans := true }

def cleaningConfiguration : Configuration :=
  { Configuration.standard with
    file := ⟨"/schemac.toml"⟩
    root := some ⟨"/"⟩
    source := ⟨"/src"⟩
    output := ⟨"/out"⟩
    cleans := true }

def cleaningSession : Workbench :=
  ⟨.start cleaningConfiguration.layout none none true, staleProject, []⟩

def cleaningBuilt : Workbench := (cleaningSession.buildAll cleaningConfiguration).2

/-- The old output is gone, and the new one is there, behind both builds. -/
theorem buildAll_idempotent_staleProject :
    (cleaningBuilt.buildAll cleaningConfiguration).2.files.entry? ["out", "a.json"] =
      some (.file (.text "\x7b\n\t\"title\": \"a\"\n\x7d")) ∧
    (cleaningBuilt.buildAll cleaningConfiguration).2.files.entry? ["out", "b.json"] = none := by
  have wf : WellFormed staleProject := .ofEntries (by decide) (by decide)
  have loaded : Configuration.load staleProject cleaningOptions = .ok cleaningConfiguration :=
    eq_ok_of_toOption (by decide +kernel)
  have started : cleaningConfiguration.startSession staleProject = .ok cleaningSession := rfl
  have same : ∀ q, (cleaningBuilt.buildAll cleaningConfiguration).2.files.entry? q =
      cleaningBuilt.files.entry? q :=
    Configuration.buildAll_idempotent (T := ["out"]) wf loaded started (by decide) (by decide)
  rw [same, same]
  decide +kernel

end SchemaLoom
