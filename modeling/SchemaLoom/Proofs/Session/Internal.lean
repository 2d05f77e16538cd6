import SchemaLoom.Proofs.Session.Isolation
import SchemaLoom.Proofs.Session.Latest

/-!
# Documents that stay out of the output tree

Whether a document is internal is only asked when it is about to be written. A batch writes no
output of an internal document, and it takes no file away. So along edits and batches the output of
a template that has become internal is what the last batch before that has left: it is there exactly
if a batch wrote it when the document was still exported.
-/

namespace SchemaLoom

open SchemaLoom.Path Compile FileSystem

variable {S T : Place} {base start w v : Workbench} {p : Path} {paths : List Path}
  {s t : CompiledSchema} {q o : Place}

/-! ## The files of one batch -/

/-- An output that was written is there. -/
theorem FileSystem.Received.found {isPretty : Bool} {fs fs' : FileSystem} {outputs : List Output}
    {o : Output} (h : fs.Received isPretty outputs fs') (absolute : o.path.isAbsolute = true)
    (mem : o ∈ outputs) : ∃ place contents, fs'.find o.path = .ok (place, .file contents) := by
  have later : ∀ {fs' fs''}, Smaller fs' fs'' →
      (∃ place contents, fs'.find o.path = .ok (place, .file contents)) →
        ∃ place contents, fs''.find o.path = .ok (place, .file contents) :=
    fun smaller ⟨place, _, found⟩ => ⟨place, smaller.find_file absolute found⟩
  induction h with
  | nothing => exact absurd mem List.not_mem_nil
  | directory _ made ih => exact later (makeDirectories_grown made).smaller (ih mem)
  | @output outputs fs' fs'' last _ wrote ih =>
    rcases List.mem_append.mp mem with front | here
    · exact later (writeFile_grown wrote).smaller (ih front)
    · obtain rfl := List.mem_singleton.mp here
      obtain ⟨place, -, found⟩ := find_writeFile absolute wrote
      exact ⟨place, _, found⟩

theorem Workbench.Writes.found (absolute : base.session.layout.output.isAbsolute = true)
    (h : base.Writes paths s) : ∃ place contents,
      (base.compileBatch paths).2.files.find (base.session.layout.outputFor s.source) =
        .ok (place, .file contents) := by
  obtain ⟨F, W, outputs, tallies, mem⟩ := h
  have mem : base.session.layout.outputFor s.source ∈ outputs.map Output.path :=
    tallies.accounts.paths ▸ List.mem_map.mpr ⟨s, mem, rfl⟩
  obtain ⟨output, mem, same⟩ := List.mem_map.mp mem
  rw [← same]
  exact tallies.accounts.emits.files.found (same ▸ Layout.outputFor_isAbsolute absolute _) mem

section Batch

variable (sound : base.Sound S T) (admitted : ∀ p ∈ paths, Admits T p)
include sound admitted

theorem Workbench.Writes.place (h : base.Writes paths s) : Admits T s.source ∧
    ∃ o, (base.session.layout.outputFor s.source).LeadsTo o ∧
      ∃ c, (base.compileBatch paths).2.files.entry? o = some (.file c) := by
  obtain ⟨F, finishing⟩ := compileBatch_finishing sound admitted
  obtain ⟨mem, -⟩ := (finishing.records.known_iff _ _).mp h.stores.1
  obtain ⟨hs, length, document, -, -, -, read, -⟩ := finishing.expands s mem
  obtain ⟨a, c, hc, hend⟩ := sound.toRooted.output hs read
  obtain ⟨place, contents, found⟩ := h.found sound.trees.outputAt.isAbsolute
  rcases hend with rfl | ⟨n, rfl⟩
  · exact absurd (find_up hc found) (by simp)
  · have leads : (base.session.layout.outputFor s.source).LeadsTo (T ++ a ++ [n]) := by
      simpa [LeadsTo] using hc
    exact ⟨hs, _, leads, contents, (find_leadsTo leads found).2⟩

/-- The files behind a batch are those from before and the outputs that it writes. -/
theorem compileBatch_file_iff : (∃ c, (base.compileBatch paths).2.files.entry? q = some (.file c)) ↔
    (∃ c, base.files.entry? q = some (.file c)) ∨
      ∃ s, base.Writes paths s ∧ (base.session.layout.outputFor s.source).LeadsTo q := by
  obtain ⟨grown, changed⟩ := compileBatch_writes sound.trees.outputAt.isAbsolute paths
  constructor
  · rintro ⟨c, there⟩
    refine (changed q c there).imp (fun same => ⟨c, same⟩) ?_
    rintro ⟨s, writes, located⟩
    obtain ⟨-, o, leads, -⟩ := writes.place sound admitted
    exact ⟨s, writes, (locate_leadsTo leads located).1 ▸ leads⟩
  · rintro (⟨c, there⟩ | ⟨s, writes, leads⟩)
    · exact grown.keepsFile there
    · obtain ⟨-, o, leads', there⟩ := writes.place sound admitted
      exact leads'.unique leads ▸ there

theorem compileBatch_kept {c : Contents}
    (there : (base.compileBatch paths).2.files.entry? o = some (.file c))
    (unwritten : ∀ s, base.Writes paths s →
      ¬ (base.session.layout.outputFor s.source).LeadsTo o) :
    base.files.entry? o = some (.file c) := by
  refine ((compileBatch_writes sound.trees.outputAt.isAbsolute paths).2 o c there).resolve_right ?_
  rintro ⟨s, writes, located⟩
  obtain ⟨-, q, leads, -⟩ := writes.place sound admitted
  exact unwritten s writes ((locate_leadsTo leads located).1 ▸ leads)

end Batch

/-! ## Edits and batches -/

/-- Anything was changed but the settings of the session and the files of the output tree. -/
structure Edits (S T : Place) (w v : Workbench) : Prop where
  settings : w.SameSettings v
  sound : v.Sound S T
  outputs : ∀ q, T <+: q → v.files.entry? q = w.files.entry? q

/-- Edits and batches one after the other. The batches are listed in their order, each with the
workbench that it was made on. -/
inductive Edited (S T : Place) (start : Workbench) : List (Workbench × List Path) → Workbench → Prop
  where
  | start : Edited S T start [] start
  | edit {batches : List (Workbench × List Path)} {w v : Workbench} : Edited S T start batches w →
      Edits S T w v → Edited S T start batches v
  | batch {batches : List (Workbench × List Path)} {w : Workbench} {paths : List Path} :
      Edited S T start batches w → (∀ p ∈ paths, Admits T p) →
        Edited S T start (batches ++ [(w, paths)]) (w.compileBatch paths).2

/-- The workbench with another text in a file. -/
def Workbench.rewritten (w : Workbench) (place : Place) (text : String) : Workbench :=
  { w with files := w.files.put place (.file (.text text)) }

/-- To write another text into a file outside the output tree is an edit. -/
theorem Workbench.Sound.edits_rewritten (sound : w.Sound S T) {text : String} {old : Contents}
    (there : w.files.entry? q = some (.file old)) (outside : ¬ T <+: q) :
    Edits S T w (w.rewritten q text) := by
  have ne : q ≠ [] := by
    rintro rfl
    simp at there
  have apart : q ≠ S := by
    rintro rfl
    simp [sound.root] at there
  have files : WellFormed (w.rewritten q text).files :=
    sound.files.put (sound.files.stands (by simp [there])) ne (by simp [there])
  have root : (w.rewritten q text).files.entry? S = some .directory :=
    (entry?_put_of_ne apart.symm).trans sound.root
  refine ⟨⟨rfl, rfl, rfl, rfl⟩, ⟨⟨sound.trees, files, root⟩, sound.docs⟩, ?_⟩
  rintro r inside
  refine entry?_put_of_ne ?_
  rintro rfl
  exact outside inside

/-- The files of the output tree are those that the batches wrote. -/
structure Traces (S T : Place) (start : Workbench) (batches : List (Workbench × List Path))
    (w : Workbench) : Prop where
  sound : w.Sound S T
  settings : start.SameSettings w
  files : ∀ q, T <+: q → ((∃ c, w.files.entry? q = some (.file c)) ↔
    ∃ b ∈ batches, ∃ s, b.1.Writes b.2 s ∧ (start.session.layout.outputFor s.source).LeadsTo q)

theorem Traces.batch {batches : List (Workbench × List Path)} (h : Traces S T start batches w)
    (admitted : ∀ p ∈ paths, Admits T p) :
    Traces S T start (batches ++ [(w, paths)]) (w.compileBatch paths).2 := by
  obtain ⟨F, finishing⟩ := compileBatch_finishing h.sound admitted
  obtain ⟨layout, registry, docs, isPretty, -⟩ := finishing.unchanged
  refine ⟨h.sound.newGeneration.of_unchanged finishing.unchanged,
    h.settings.trans ⟨layout, registry, docs, isPretty⟩, fun q inside => ?_⟩
  rw [compileBatch_file_iff h.sound admitted, h.files q inside, h.settings.layout]
  simp [or_and_right, exists_or]

theorem Edited.traces {batches : List (Workbench × List Path)} (sound : start.Sound S T)
    (empty : ∀ q, T <+: q → ∀ c, start.files.entry? q ≠ some (.file c))
    (h : Edited S T start batches w) : Traces S T start batches w := by
  induction h with
  | start =>
    refine ⟨sound, ⟨rfl, rfl, rfl, rfl⟩, fun q inside => iff_of_false ?_ (by simp)⟩
    exact fun ⟨c, there⟩ => empty q inside c there
  | edit _ edits ih =>
    refine ⟨edits.sound, ih.settings.trans edits.settings, fun q inside => ?_⟩
    rw [edits.outputs q inside]
    exact ih.files q inside
  | batch _ admitted ih => exact ih.batch admitted

/-! ## Internal documents -/

theorem Path.LeadsTo.same_iff_leadsTo {p q : Path} (h : p.LeadsTo o) :
    q.same p = true ↔ q.LeadsTo o := by
  rw [Path.same_iff, h]
  rfl

/-- A batch leaves the output of a template alone that no exported document has. -/
theorem compileBatch_unclaimed (sound : w.Sound S T) (admitted : ∀ p ∈ paths, Admits T p)
    (leads : (w.session.layout.outputFor p).LeadsTo o)
    (unclaimed : ∀ t, (w.compileBatch paths).2.Stores t →
      (w.session.layout.outputFor t.source).same (w.session.layout.outputFor p) = false)
    {c : Contents} :
    (w.compileBatch paths).2.files.entry? o = some (.file c) ↔
      w.files.entry? o = some (.file c) := by
  have kept : ∀ {c}, (w.compileBatch paths).2.files.entry? o = some (.file c) →
      w.files.entry? o = some (.file c) := fun there =>
    compileBatch_kept sound admitted there fun s writes place => by
      have apart := unclaimed s writes.stores
      rw [leads.same_iff_leadsTo.mpr place] at apart
      cases apart
  refine ⟨kept, fun there => ?_⟩
  obtain ⟨grown, -⟩ := compileBatch_writes sound.trees.outputAt.isAbsolute paths
  obtain ⟨c', now⟩ := grown.keepsFile there
  obtain rfl : c' = c := by simpa [there] using (kept now).symm
  exact now

/-- Along edits and batches that start on an output tree without files, a batch without failures has
a document of each of its templates. Where the executed document asks for no output, and no other
document has that output, the batch leaves it as it was: it is there exactly if an earlier batch has
written it. -/
theorem internal_output_lingers (sound : start.Sound S T)
    (empty : ∀ q, T <+: q → ∀ c, start.files.entry? q ≠ some (.file c))
    {batches : List (Workbench × List Path)} (history : Edited S T start batches w)
    (admitted : ∀ p ∈ paths, Admits T p) (ok : (w.compileBatch paths).1.failures = [])
    (mem : p ∈ paths) :
    ∃ s result u, (w.compileBatch paths).2.state p = .known s ∧ w.Expands T s ∧
      w.newGeneration.Executes paths p result u ∧ s.document = result.stripDirectives ∧
      s.isExported = !isInternal result ∧
      (isInternal result = true →
        ∀ o, (w.session.layout.outputFor p).LeadsTo o →
          (∀ t, (w.compileBatch paths).2.Stores t →
            (w.session.layout.outputFor t.source).same (w.session.layout.outputFor p) = false) →
          (∀ c, (w.compileBatch paths).2.files.entry? o = some (.file c) ↔
            w.files.entry? o = some (.file c)) ∧
          ((∃ c, (w.compileBatch paths).2.files.entry? o = some (.file c)) ↔
            ∃ b ∈ batches, ∃ t, b.1.Writes b.2 t ∧
              (w.session.layout.outputFor t.source).same
                (w.session.layout.outputFor p) = true)) := by
  have traces := history.traces sound empty
  obtain ⟨F, mirrors, all⟩ := compileBatch_mirrors traces.sound admitted ok
  obtain ⟨s, finished, rfl⟩ := all p mem
  obtain ⟨hs, expands⟩ := mirrors.finishing.expands s finished
  have start' : Unchanged T w w.newGeneration :=
    (Unchanged.refl w).modifySession rfl rfl rfl rfl
  have expands := expands.congr start' rfl
  have known := (mirrors.finishing.records.known_iff _ _).mpr ⟨finished, same_self s.source⟩
  obtain ⟨F', W, outputs, tallies⟩ := compileBatch_tallies w paths
  obtain ⟨result, u, executes, stripped, exported⟩ := tallies.accounts.executed s
    ((tallies.accounts.records.known_iff _ _).mp known).1
  refine ⟨s, result, u, known, expands, executes, stripped, exported, fun _ o leads unclaimed => ?_⟩
  have kept : ∀ c, (w.compileBatch paths).2.files.entry? o = some (.file c) ↔
      w.files.entry? o = some (.file c) := fun c =>
    compileBatch_unclaimed traces.sound admitted leads unclaimed
  refine ⟨kept, ?_⟩
  have inside : T <+: o := by
    obtain ⟨length, document, -, -, -, read, -⟩ := expands
    obtain ⟨a, c, hc, -⟩ := traces.sound.toRooted.output hs read
    exact (leads.startsWith_iff traces.sound.trees.outputAt).mp
      (traces.sound.toRooted.startsWith_output hc)
  rw [traces.settings.layout] at leads ⊢
  simp only [kept, traces.files o inside, leads.same_iff_leadsTo]

/-! ## A template that becomes internal -/

def onceExported : Workbench where
  session := .start ⟨⟨"/src"⟩, ⟨"/out"⟩⟩ none none false
  files := ⟨[], [(["src"], .directory), (["src", "a.yml"], .file (.text "title: a\n"))]⟩
  log := []

/-- The template was edited behind a first batch. -/
@[irreducible]
def nowInternal : Workbench :=
  (onceExported.compileBatch [⟨"/src/a.yml"⟩]).2.rewritten ["src", "a.yml"]
    "title: a\n$DONT_EXPORT: true\n"

/-- What both batches leave, as far as it can be computed. -/
theorem nowInternal_facts :
    (nowInternal.compileBatch [⟨"/src/a.yml"⟩]).1.isOk = true ∧
    (match (nowInternal.compileBatch [⟨"/src/a.yml"⟩]).2.state ⟨"/src/a.yml"⟩ with
      | .known s => !s.isExported
      | _ => false) = true ∧
    (∀ entry ∈ (nowInternal.compileBatch [⟨"/src/a.yml"⟩]).2.session.cache.entries,
      (match entry.2 with
        | .done s => !s.isExported
        | .inProgress => true) = true) ∧
    nowInternal.files.entry? ["out", "a.json"] = some (.file (.text "\x7b\"title\":\"a\"\x7d")) ∧
    (nowInternal.session.layout.outputFor ⟨"/src/a.yml"⟩).LeadsTo ["out", "a.json"] := by
  decide +kernel

theorem onceExported_sound : onceExported.Sound ["src"] ["out"] where
  trees := ⟨by decide, by decide, by decide, by decide⟩
  files := .ofEntries (by decide) (by decide)
  root := by decide
  docs _ h := by simp [onceExported, Session.start] at h

theorem onceExported_empty : ∀ q, ["out"] <+: q → ∀ c,
    onceExported.files.entry? q ≠ some (.file c) := by
  intro q inside c there
  have ne : q ≠ [] := by
    rintro rfl
    exact absurd inside (by decide)
  have apart : ∀ e ∈ onceExported.files.entries, ¬ ["out"] <+: e.1 := by decide
  exact apart _ (mem_entries there ne) inside

theorem onceExported_admits : ∀ p ∈ [(⟨"/src/a.yml"⟩ : Path)], Admits ["out"] p := by
  intro p mem
  obtain rfl := List.mem_singleton.mp mem
  exact ⟨["src", "a.yml"], by decide, by decide, by decide⟩

theorem nowInternal_edited : Edited ["src"] ["out"] onceExported
    [(onceExported, [⟨"/src/a.yml"⟩])] nowInternal := by
  have batch : Edited ["src"] ["out"] onceExported ([] ++ [(onceExported, [⟨"/src/a.yml"⟩])]) _ :=
    .batch .start onceExported_admits
  have there : (onceExported.compileBatch [⟨"/src/a.yml"⟩]).2.files.entry? ["src", "a.yml"] =
      some (.file (.text "title: a\n")) := by decide +kernel
  have sound := (batch.traces onceExported_sound onceExported_empty).sound
  unfold nowInternal
  exact batch.edit (sound.edits_rewritten there (by decide))

/-- The template asks for no output, and has the one that the first batch wrote. -/
theorem internal_output_lingers_nowInternal :
    ∃ s result u, (nowInternal.compileBatch [⟨"/src/a.yml"⟩]).2.state ⟨"/src/a.yml"⟩ = .known s ∧
      nowInternal.newGeneration.Executes [⟨"/src/a.yml"⟩] ⟨"/src/a.yml"⟩ result u ∧
      isInternal result = true ∧
      (nowInternal.compileBatch [⟨"/src/a.yml"⟩]).2.files.entry? ["out", "a.json"] =
        some (.file (.text "\x7b\"title\":\"a\"\x7d")) ∧
      ∃ t, onceExported.Writes [⟨"/src/a.yml"⟩] t ∧ (nowInternal.session.layout.outputFor
        t.source).same (nowInternal.session.layout.outputFor ⟨"/src/a.yml"⟩) = true := by
  obtain ⟨ok, internal, unstored, there, leads⟩ := nowInternal_facts
  obtain ⟨s, result, u, known, -, executes, -, exported, lingers⟩ :=
    internal_output_lingers onceExported_sound onceExported_empty nowInternal_edited
      onceExported_admits
      (List.isEmpty_iff.mp ok) List.mem_cons_self
  rw [known] at internal
  have flagged : isInternal result = true := by simpa [exported] using internal
  obtain ⟨same, wrote⟩ := lingers flagged _ leads fun t stores => by
    obtain ⟨q, mem, -⟩ := Cache.mem_of_known stores.1
    have exported := unstored _ mem
    simp [stores.2] at exported
  have now := (same _).mpr there
  obtain ⟨b, mem, t, writes, shared⟩ := wrote.mp ⟨_, now⟩
  obtain rfl := List.mem_singleton.mp mem
  exact ⟨s, result, u, known, executes, flagged, now, t, writes, shared⟩

end SchemaLoom
