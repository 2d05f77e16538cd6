import SchemaLoom.Proofs.Reference.Integrity
import SchemaLoom.Proofs.Session.Latest
import SchemaLoom.Proofs.Watch.Rebuilding

/-!
# What a full build mirrors

The templates of the source tree are mirrored in the output tree: each output stands in the
directory of its template, with the template's stem. So templates in one directory share an output
exactly if they have one stem, and of those the build leaves the document that it finished last.
Where a template shares its output with no other it has its own document there.
-/

namespace SchemaLoom

open SchemaLoom.Path FileSystem Compile

variable {S T : Place} {w v : Workbench} {c : Configuration} {s t : CompiledSchema}

/-! ## Shared outputs -/

namespace Layout

variable {l : Layout} {a b o o' : Place} {p q : Path} {m n : String}

section

variable (source : l.source.LeadsTo S) (output : l.output.LeadsTo T)
include source output

/-- An output that can be written has the stem of its template. -/
theorem eq_of_outputFor_leadsTo (hp : p.LeadsTo (S ++ a ++ [m]))
    (leads : (l.outputFor p).LeadsTo o) : o = T ++ a ++ [p.stem ++ ".json"] := by
  obtain ⟨mirrored, eq, place⟩ := outputFor_mirrored source output hp
  have components := components_withExtension (e := outputExtension)
    (show mirrored.components =
      .root :: (T ++ a).map .name ++ [.name m] by simpa [LeadsTo] using place)
    (by decide) (by decide)
  rw [eq] at leads
  rw [leads] at components
  have names := (List.cons.inj components).2
  split at names
  · have up : Component.up ∈ o.map Component.name := by simp [names]
    simp at up
  · have stem : p.stem = String.ofList (cutName m.toList).1 := by
      simp [Path.stem, Path.stem?, hp.fileName?]
    apply LeadsTo.names_inj
    rw [names, stem]
    simp [String.ofList_append, outputExtension]

theorem same_outputFor_iff (hp : p.LeadsTo (S ++ a ++ [m])) (hq : q.LeadsTo (S ++ b ++ [n]))
    (place : (l.outputFor p).LeadsTo o) (place' : (l.outputFor q).LeadsTo o') :
    (l.outputFor p).same (l.outputFor q) = true ↔ a = b ∧ p.stem = q.stem := by
  rw [place.same_iff place', eq_of_outputFor_leadsTo source output hp place,
    eq_of_outputFor_leadsTo source output hq place']
  constructor
  · intro same
    obtain ⟨front, last⟩ := List.append_inj' same rfl
    refine ⟨List.append_cancel_left front, ?_⟩
    have text := congrArg String.toList (List.singleton_inj.mp last)
    rw [String.toList_append, String.toList_append] at text
    exact String.toList_inj.mp (List.append_cancel_right text)
  · rintro ⟨rfl, stem⟩
    rw [stem]

end

end Layout

/-! ## The build -/

/-- The documents `F` were finished, in this order, from the files of a workbench. Each is stored,
and the output of one that is exported holds its text unless a later one has the same output. -/
structure Workbench.Mirrored (T : Place) (base : Workbench) (F : List CompiledSchema)
    (w : Workbench) : Prop where
  records : w.session.cache.Records F []
  finished : ∀ s ∈ F, w.state s.source = .known s ∧ base.Expands T s
  places : ∀ s ∈ F, s.isExported = true → ∃ o, (base.session.layout.outputFor s.source).LeadsTo o
  latest : ∀ before s after, F = before ++ s :: after → s.isExported = true →
    base.session.layout.Unclaimed s.source after →
      ∃ o, (base.session.layout.outputFor s.source).LeadsTo o ∧
        w.files.entry? o = some (.file (.text (w.textOf s)))

namespace Workbench.Sound

variable (sound : w.Sound S T) (layout : w.session.layout = c.layout)
include sound layout

theorem source_place (expands : w.Expands T s) (below : s.source ∈ c.sourceFiles w.files) :
    ∃ a m, ValidPlace (S ++ a ++ [m]) ∧ s.source = pathOf (S ++ a ++ [m]) := by
  obtain ⟨names, valid, source⟩ := sound.sourceFile layout below
  obtain ⟨length, document, u, v, -, read, -⟩ := expands
  obtain ⟨text, read, -⟩ := readTemplate_eq_ok read
  rw [source] at read
  obtain ⟨-, notRoot⟩ := sound.toRooted.ne_of_readText valid read
  rcases List.eq_nil_or_concat names with rfl | ⟨a, m, rfl⟩
  · exact absurd (List.append_nil S) notRoot
  · rw [List.concat_eq_append, ← List.append_assoc] at valid source
    exact ⟨a, m, valid, source⟩

theorem same_outputFor_iff (hs : w.Expands T s) (ht : w.Expands T t)
    (below : s.source ∈ c.sourceFiles w.files) (below' : t.source ∈ c.sourceFiles w.files)
    {o o' : Place} (place : (w.session.layout.outputFor s.source).LeadsTo o)
    (place' : (w.session.layout.outputFor t.source).LeadsTo o') :
    (w.session.layout.outputFor s.source).same (w.session.layout.outputFor t.source) = true ↔
      s.source.parent? = t.source.parent? ∧ s.source.stem = t.source.stem := by
  have trees := sound.trees
  have source : w.session.layout.source.LeadsTo S :=
    trees.sourceAt ▸ leadsTo_pathOf trees.valid
  obtain ⟨a, m, valid, at_⟩ := sound.source_place layout hs below
  obtain ⟨b, n, valid', at'⟩ := sound.source_place layout ht below'
  rw [at_] at place
  rw [at'] at place'
  rw [at_, at', Layout.same_outputFor_iff source trees.outputAt (leadsTo_pathOf valid)
    (leadsTo_pathOf valid') place place', parent?_pathOf valid, parent?_pathOf valid']
  apply and_congr_left'
  constructor
  · rintro rfl
    rfl
  · intro parents
    exact List.append_cancel_left (pathOf_inj valid.left valid'.left (Option.some.inj parents))

/-- A successful build of the source tree mirrors it. -/
theorem buildSources_mirrored (built : w.buildSources c = (.ok (), v)) :
    ∃ F, w.Mirrored T F v ∧ ∀ p ∈ c.sourceFiles w.files, ∃ s ∈ F, s.source = p := by
  unfold Workbench.buildSources at built
  simp only at built
  generalize hm : s!"compiling {toString (c.sourceFiles w.files).length} templates" =
    message at built
  split at built
  · rename_i ok
    obtain ⟨F, mirrors, all⟩ := compileBatch_mirrors (sound.say "build" message)
      (sound.admits layout) (List.isEmpty_iff.mp ok)
    have told : Quiet _ v := (Prod.mk.inj built).2 ▸ quiet_summarize _ _
    have final := mirrors.finishing.quiet told
    have start : Unchanged T w (w.say "build" message).newGeneration :=
      ((Unchanged.refl w).quiet (quiet_say w _ _)).modifySession rfl rfl rfl rfl
    have wrote := start.trans final.unchanged
    refine ⟨F, ⟨final.records, fun s mem => ⟨?_, (final.expands s mem).2.congr start rfl⟩,
      mirrors.places, ?_⟩, all⟩
    · exact (final.records.known_iff s.source s).mpr ⟨mem, same_self _⟩
    · intro before s after split exported unclaimed
      obtain ⟨o, place, file⟩ := mirrors.latest before s after split exported unclaimed
      refine ⟨o, place, ?_⟩
      have start' : (w.say "build" message).newGeneration.textOf s = w.textOf s :=
        (sound.sameView start).textOf start.isPretty s
      rw [told.1, file, start', (sound.sameView wrote).textOf wrote.isPretty s]
  · simp at built

end Workbench.Sound

namespace Configuration

variable {files : FileSystem} {options : CommandLine.Options}

/-- A full build that succeeds finishes the document of every template of the source tree, and the
output of an exported one holds its text unless a document that was finished later has the same
output. Templates of the source tree have one output exactly if they stand in one directory and have
one stem. -/
theorem buildAll_mirrors (wf : WellFormed files) (loaded : load files options = .ok c)
    (started : c.startSession files = .ok w) (normal : c.output.LeadsTo T)
    (outside : c.output.startsWith c.source = false) (built : w.buildAll c = (.ok (), v)) :
    ∃ base F, w.cleaned c = .ok base ∧ base.Mirrored T F v ∧
      (∀ p ∈ c.sourceFiles files, ∃ s ∈ F, s.source = p) ∧
      ∀ s ∈ F, ∀ t ∈ F, s.source ∈ c.sourceFiles files → t.source ∈ c.sourceFiles files →
        s.isExported = true → t.isExported = true →
          ((c.layout.outputFor s.source).same (c.layout.outputFor t.source) = true ↔
            s.source.parent? = t.source.parent? ∧ s.source.stem = t.source.stem) := by
  obtain ⟨layout, S, sound⟩ := sound_of_load wf loaded started normal outside
  obtain ⟨registry, log, -, start⟩ := startSession_eq_ok.mp started
  have same : w.files = files := by rw [start]
  cases cleaned : w.cleaned c with
  | error failure => simp [buildAll_of_error cleaned] at built
  | ok base =>
    obtain ⟨session, sound'⟩ := sound.cleaned layout cleaned
    have layout' : base.session.layout = c.layout := session ▸ layout
    rw [buildAll_of_ok cleaned] at built
    obtain ⟨F, mirrored, all⟩ := sound'.buildSources_mirrored layout' built
    have sources : c.sourceFiles base.files = c.sourceFiles files := by
      rw [← same]
      exact sound.sourceFiles layout (sound.cleaned_similar layout cleaned) sound'.files
    refine ⟨base, F, rfl, mirrored, sources ▸ all, ?_⟩
    rw [← sources, ← layout']
    intro s hs t ht below below' exported exported'
    obtain ⟨o, place⟩ := mirrored.places s hs exported
    obtain ⟨o', place'⟩ := mirrored.places t ht exported'
    exact sound'.same_outputFor_iff layout' (mirrored.finished s hs).2 (mirrored.finished t ht).2
      below below' place place'

end Configuration

/-! ## A project in which two templates share their output -/

def sharingProject : FileSystem where
  workingDirectory := []
  entries := [(["src"], .directory),
    (["src", "a.json"], .file (.text "\x7b\"title\": \"first\"\x7d")),
    (["src", "a.yml"], .file (.text "title: second\n")),
    (["src", "b.yml"], .file (.text "title: alone\n"))]

def sharingSession : Workbench :=
  ⟨.start cleaningConfiguration.layout none none true, sharingProject, []⟩

@[irreducible]
def sharingBatch : BatchReport × Workbench :=
  (sharingSession.say "build" s!"compiling {toString 3} templates").compileBatch
    [⟨"/src/a.json"⟩, ⟨"/src/a.yml"⟩, ⟨"/src/b.yml"⟩]

def sharingBuilt : Workbench := sharingBatch.2.summarize sharingBatch.1

theorem sharingProject_sources : cleaningConfiguration.sourceFiles sharingProject =
    [⟨"/src/a.json"⟩, ⟨"/src/a.yml"⟩, ⟨"/src/b.yml"⟩] :=
  sourceFiles_eq (by decide +kernel) (by decide +kernel)

theorem sharingSession_buildAll :
    sharingSession.buildAll cleaningConfiguration = (.ok (), sharingBuilt) := by
  have ok : sharingBatch.1.isOk = true := by decide +kernel
  have cleaned : sharingSession.cleaned cleaningConfiguration = .ok sharingSession := rfl
  rw [buildAll_of_ok cleaned, sharingBuilt]
  unfold sharingBatch at ok ⊢
  exact buildSources_of_ok sharingProject_sources rfl rfl ok

/-- Of the two documents with one output the second is left. -/
theorem buildAll_mirrors_sharingProject :
    (∃ base F, sharingSession.cleaned cleaningConfiguration = .ok base ∧
      base.Mirrored ["out"] F sharingBuilt ∧
      (∀ p ∈ cleaningConfiguration.sourceFiles sharingProject, ∃ s ∈ F, s.source = p)) ∧
    sharingBuilt.files.entry? ["out", "a.json"] =
      some (.file (.text "\x7b\n\t\"title\": \"second\"\n\x7d")) ∧
    sharingBuilt.files.entry? ["out", "b.json"] =
      some (.file (.text "\x7b\n\t\"title\": \"alone\"\n\x7d")) := by
  have wf : WellFormed sharingProject := .ofEntries (by decide) (by decide)
  have loaded : Configuration.load sharingProject cleaningOptions = .ok cleaningConfiguration :=
    eq_ok_of_toOption (by decide +kernel)
  have started : cleaningConfiguration.startSession sharingProject = .ok sharingSession := rfl
  obtain ⟨base, F, cleaned, mirrored, all, -⟩ :=
    Configuration.buildAll_mirrors (T := ["out"]) wf loaded started (by decide) (by decide)
      sharingSession_buildAll
  exact ⟨⟨base, F, cleaned, mirrored, all⟩, by decide +kernel, by decide +kernel⟩

end SchemaLoom
