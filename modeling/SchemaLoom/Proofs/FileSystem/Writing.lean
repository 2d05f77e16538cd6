import SchemaLoom.Proofs.FileSystem.Reading
import SchemaLoom.Proofs.Session.Run
import SchemaLoom.Session.Compile

/-!
# Writing an output

Making directories and writing a file make a file system grow. When an output without `..` in its
path is written, its place holds the text, directories stand around it, and nothing else changes.
-/

namespace SchemaLoom.FileSystem

open SchemaLoom.Path

variable {fs fs' fs'' : FileSystem} {place ns tree q : Place} {p : Path} {contents : Contents}

theorem ne_root_of_not_directory (h : fs.entry? place ≠ some .directory) : place ≠ [] := by
  rintro rfl
  simp at h

theorem ne_root_of_free (h : fs.entry? place = none) : place ≠ [] := by
  rintro rfl
  simp at h

theorem makeDirectory_eq_ok : fs.makeDirectory p = .ok fs' ↔
    ∃ place, fs.locate p = .ok place ∧ fs.entry? place = none ∧ fs' = fs.put place .directory := by
  unfold makeDirectory
  split
  · rename_i e hl
    simp [hl]
  · rename_i place hl
    split
    · rename_i e he
      simp [hl, he]
    · rename_i he
      simp [hl, he, eq_comm]

theorem writeFile_eq_ok : fs.writeFile p contents = .ok fs' ↔
    ∃ place, fs.locate p = .ok place ∧ fs.entry? place ≠ some .directory ∧
      fs' = fs.put place (.file contents) := by
  unfold writeFile
  split
  · rename_i e hl
    simp [hl]
  · rename_i place hl
    split
    · rename_i he
      simp [hl, he]
    · rename_i he
      constructor
      · intro h
        exact ⟨place, hl, he, (Except.ok.inj h).symm⟩
      · rintro ⟨q, hq, -, rfl⟩
        obtain rfl := Except.ok.inj (hl.symm.trans hq)
        rfl

theorem ensureDirectory_eq_ok (h : fs.ensureDirectory p = .ok fs') :
    fs.makeDirectory p = .ok fs' ∨ fs' = fs ∧ fs.isDirectory p = true := by
  unfold ensureDirectory at h
  split at h
  · rename_i made
    exact .inl (Except.ok.inj h ▸ made)
  · split at h
    · rename_i hd
      exact .inr ⟨(Except.ok.inj h).symm, hd⟩
    · simp at h

theorem ensureBelow_cons {parent : Path} {rest : List Path}
    (h : fs.ensureBelow p (parent :: rest) = .ok fs') :
    fs.ensureDirectory p = .ok fs' ∨
      ∃ between, fs.ensureBelow parent rest = .ok between ∧
        between.ensureDirectory p = .ok fs' := by
  unfold ensureBelow at h
  split at h
  · rename_i made
    exact .inl (Except.ok.inj h ▸ made)
  · split at h
    · simp at h
    · rename_i between made
      exact .inr ⟨between, made, h⟩
  · simp at h

/-! ## Growth -/

theorem inside_root (h : place ≠ []) : Inside [] place := ⟨List.nil_prefix, h⟩

theorem ensureDirectory_grown (h : fs.ensureDirectory p = .ok fs') : Grown [] fs fs' := by
  rcases ensureDirectory_eq_ok h with made | ⟨rfl, -⟩
  · obtain ⟨place, -, free, rfl⟩ := makeDirectory_eq_ok.mp made
    exact Grown.refl.directory free (.inl (inside_root (ne_root_of_free free)))
  · exact .refl

theorem ensureBelow_grown {ancestors : List Path} (h : fs.ensureBelow p ancestors = .ok fs') :
    Grown [] fs fs' := by
  induction ancestors generalizing fs fs' p with
  | nil => exact ensureDirectory_grown h
  | cons parent rest ih =>
    rcases ensureBelow_cons h with made | ⟨between, below, made⟩
    · exact ensureDirectory_grown made
    · exact (ih below).trans (ensureDirectory_grown made)

theorem makeDirectories_grown (h : fs.makeDirectories p = .ok fs') : Grown [] fs fs' := by
  unfold makeDirectories at h
  split at h
  · exact Except.ok.inj h ▸ .refl
  · exact ensureBelow_grown h

theorem writeFile_grown (h : fs.writeFile p contents = .ok fs') : Grown [] fs fs' := by
  obtain ⟨place, -, free, rfl⟩ := writeFile_eq_ok.mp h
  exact Grown.refl.file contents free (inside_root (ne_root_of_not_directory free))

/-! ## Directories up to a place -/

/-- Nothing but missing directories up to a place was made, and all of them are there. -/
structure Prepared (ns : Place) (fs fs' : FileSystem) : Prop where
  directories : ∀ m, m <+: ns → fs'.entry? m = some .directory
  before : ∀ m, m <+: ns → fs.entry? m = none ∨ fs.entry? m = some .directory
  kept : ∀ q, ¬ q <+: ns → fs'.entry? q = fs.entry? q
  grown : ∀ tree, tree <+: ns ∨ ns <+: tree → Grown tree fs fs'

theorem passed_directories (h : p.LeadsTo ns) (hl : fs.locate p = .ok place)
    {m : Place} (hm : m <+: ns) (ne : m ≠ ns) : fs.entry? m = some .directory := by
  obtain ⟨more, rfl⟩ := hm
  exact (locate_leadsTo h hl).2 m more rfl (fun he => ne (by simp [he]))

theorem ensureDirectory_prepared (h : p.LeadsTo ns) (hd : fs.ensureDirectory p = .ok fs') :
    Prepared ns fs fs' := by
  rcases ensureDirectory_eq_ok hd with made | ⟨same, there⟩
  · obtain ⟨place, hl, free, rfl⟩ := makeDirectory_eq_ok.mp made
    obtain rfl := (locate_leadsTo h hl).1
    have ne := ne_root_of_free free
    refine ⟨fun m hm => ?_, fun m hm => ?_, fun q hq => ?_, fun tree ht => ?_⟩
    · by_cases he : m = place
      · subst he
        exact entry?_put_self ne
      · rw [entry?_put_of_ne he]
        exact passed_directories h hl hm he
    · by_cases he : m = place
      · exact .inl (he ▸ free)
      · exact .inr (passed_directories h hl hm he)
    · refine entry?_put_of_ne ?_
      rintro rfl
      exact hq List.prefix_rfl
    · refine Grown.refl.directory free ?_
      rcases ht with ht | ht
      · by_cases he : place = tree
        · exact .inr (he ▸ List.prefix_rfl)
        · exact .inl ⟨ht, he⟩
      · exact .inr ht
  · subst same
    obtain ⟨place, hf⟩ := isDirectory_iff.mp there
    obtain ⟨hl, he⟩ := find_eq_ok.mp hf
    obtain rfl := (locate_leadsTo h hl).1
    have all : ∀ m, m <+: place → fs'.entry? m = some .directory := by
      intro m hm
      by_cases hn : m = place
      · exact hn ▸ he
      · exact passed_directories h hl hm hn
    exact ⟨all, fun m hm => .inr (all m hm), fun _ _ => rfl, fun _ _ => .refl⟩

theorem Prepared.snoc {s : String} (first : Prepared ns fs fs')
    (second : Prepared (ns ++ [s]) fs' fs'') : Prepared (ns ++ [s]) fs fs'' := by
  have new : ¬ ns ++ [s] <+: ns := fun hp => by simpa [Nat.not_succ_le_self] using hp.length_le
  refine ⟨second.directories, fun m hm => ?_, fun q hq => ?_, fun tree ht => ?_⟩
  · rcases List.prefix_concat_iff.mp hm with rfl | hm
    · rw [← first.kept _ new]
      exact second.before _ List.prefix_rfl
    · exact first.before m hm
  · rw [second.kept q hq, first.kept q fun h => hq (h.trans (List.prefix_append ns [s]))]
  · refine Grown.trans (first.grown tree ?_) (second.grown tree ht)
    rcases ht with ht | ht
    · rcases List.prefix_concat_iff.mp ht with rfl | ht
      · exact .inr (List.prefix_append ns [s])
      · exact .inl ht
    · exact .inr ((List.prefix_append ns [s]).trans ht)

theorem ensureBelow_prepared {bound : Nat} (h : p.LeadsTo ns)
    (hd : fs.ensureBelow p (ancestors p bound) = .ok fs') : Prepared ns fs fs' := by
  induction bound generalizing p ns fs fs' with
  | zero => exact ensureDirectory_prepared h hd
  | succ bound ih =>
    rcases List.eq_nil_or_concat ns with rfl | ⟨init, s, rfl⟩
    · rw [ancestors, h.parent?_nil] at hd
      exact ensureDirectory_prepared h hd
    · rw [List.concat_eq_append] at *
      obtain ⟨parent, hp, hl⟩ := h.parent?
      rw [ancestors, hp] at hd
      rcases ensureBelow_cons hd with made | ⟨between, below, made⟩
      · exact ensureDirectory_prepared h made
      · exact (ih hl below).snoc (ensureDirectory_prepared h made)

theorem makeDirectories_prepared (h : p.LeadsTo ns) (hd : fs.makeDirectories p = .ok fs') :
    Prepared ns fs fs' := by
  obtain ⟨cs, hcs, -⟩ := h.chars
  unfold makeDirectories at hd
  rw [if_neg (by simp [hcs])] at hd
  exact ensureBelow_prepared h hd

/-! ## Outputs -/

/-- The directory of an output was made, if the output stands in one. -/
structure Ready (fs : FileSystem) (output : Path) (fs' : FileSystem) : Prop where
  made : ∀ parent, output.parent? = some parent → fs.makeDirectories parent = .ok fs'
  rootless : output.parent? = none → fs' = fs

theorem Ready.grown {output : Path} (h : Ready fs output fs') : Grown [] fs fs' := by
  cases hp : output.parent? with
  | some parent => exact makeDirectories_grown (h.made parent hp)
  | none => exact h.rootless hp ▸ .refl

theorem Ready.prepared {output : Path} {c : Component} (h : Ready fs output fs')
    (hc : output.components = .root :: ns.map .name ++ [c]) : Prepared ns fs fs' := by
  obtain ⟨parent, hp, hl⟩ := parent?_leadsTo hc
  exact makeDirectories_prepared hl (h.made parent hp)

/-- A text was written to a place, and the missing directories around it were made. -/
structure Written (place : Place) (text : String) (fs fs' : FileSystem) : Prop where
  file : fs'.entry? place = some (.file (.text text))
  directories : ∀ m, m <+: place → m ≠ place → fs'.entry? m = some .directory
  before : ∀ m, m <+: place → m ≠ place → fs.entry? m = none ∨ fs.entry? m = some .directory
  kept : ∀ q, ¬ q <+: place → fs'.entry? q = fs.entry? q
  grown : ∀ tree, Inside tree place → Grown tree fs fs'

theorem written_of_ready {s text : String} (h : p.LeadsTo (ns ++ [s])) (ready : Ready fs p fs')
    (hw : fs'.writeFile p (.text text) = .ok fs'') : Written (ns ++ [s]) text fs fs'' := by
  have prepared := ready.prepared (c := .name s) (by simpa [LeadsTo] using h)
  obtain ⟨place, hplace, free, rfl⟩ := writeFile_eq_ok.mp hw
  obtain rfl := (locate_leadsTo h hplace).1
  have above : ∀ m, m <+: ns ++ [s] → m ≠ ns ++ [s] → m <+: ns := by
    intro m hm hn
    exact (List.prefix_concat_iff.mp hm).resolve_left hn
  refine ⟨entry?_put_self (by simp), fun m hm hn => ?_, fun m hm hn => ?_, fun q hq => ?_,
    fun tree ht => ?_⟩
  · rw [entry?_put_of_ne hn]
    exact prepared.directories m (above m hm hn)
  · exact prepared.before m (above m hm hn)
  · rw [entry?_put_of_ne (by rintro rfl; exact hq List.prefix_rfl)]
    exact prepared.kept q fun h => hq (h.trans (List.prefix_append ns [s]))
  · exact (prepared.grown tree (.inl ht.parent)).file _ free ht

theorem writeFile_up {ns : Place} (hc : p.components = .root :: ns.map .name ++ [.up]) :
    fs.writeFile p contents ≠ .ok fs' := by
  intro hw
  obtain ⟨place, hl, free, -⟩ := writeFile_eq_ok.mp hw
  have ha : p.isAbsolute = true := isAbsolute_iff_components.mpr ⟨_, hc⟩
  rw [split_components ha, List.cons_append] at hc
  exact free (follow_up (List.cons.inj hc).2 (by simp) ((locate_absolute ha).mp hl).2)

end SchemaLoom.FileSystem

namespace SchemaLoom.Compile

open FileSystem

variable {w w' : Workbench} {output : Path} {text : String}

/-- Making the directory of an output. -/
def makeReady (output : Path) : Compile Unit := do
  match output.parent? with
  | some parent =>
    match (← get).files.makeDirectories parent with
    | .ok files => modify fun w => { w with files }
    | .error cause => throw (.file parent cause)
  | none => pure ()

theorem makeReady_run (output : Path) (w : Workbench) :
    (∃ files, Ready w.files output files ∧ makeReady output w = .ok () { w with files }) ∨
      ∃ parent cause, output.parent? = some parent ∧ w.files.makeDirectories parent = .error cause ∧
        makeReady output w = .error (.file parent cause) w := by
  unfold makeReady
  cases hp : output.parent? with
  | none => exact .inl ⟨w.files, ⟨by simp [hp], fun _ => rfl⟩, rfl⟩
  | some parent =>
    simp only [get_bind_run]
    cases hd : w.files.makeDirectories parent with
    | error cause => exact .inr ⟨parent, cause, rfl, hd, rfl⟩
    | ok files =>
      refine .inl ⟨files, ⟨fun q hq => ?_, fun hn => by simp [hp] at hn⟩, rfl⟩
      obtain rfl := Option.some.inj (hp.symm.trans hq)
      exact hd

/-- The ways in which writing an output ends. -/
theorem writeOutput_run (output : Path) (text : String) (w : Workbench) :
    (∃ parent cause, output.parent? = some parent ∧ w.files.makeDirectories parent = .error cause ∧
      writeOutput output text w = .error (.file parent cause) w) ∨
    ∃ files, Ready w.files output files ∧
      ((∃ cause, files.writeFile output (.text text) = .error cause ∧
          writeOutput output text w = .error (.file output cause) { w with files }) ∨
        ∃ files', files.writeFile output (.text text) = .ok files' ∧
          writeOutput output text w = .ok () { w with files := files' }) := by
  have split : writeOutput output text = (do
      makeReady output
      match (← get).files.writeFile output (.text text) with
      | .ok files => modify fun w => { w with files }
      | .error cause => throw (.file output cause)) := by
    unfold writeOutput makeReady
    cases output.parent? with
    | none => rfl
    | some parent =>
      simp only [bind_assoc]
      congr 1
      funext w
      cases w.files.makeDirectories parent <;> rfl
  rcases makeReady_run output w with ⟨files, ready, hr⟩ | ⟨parent, cause, hp, hd, hr⟩
  · refine .inr ⟨files, ready, ?_⟩
    rw [split, bind_run_ok hr, get_bind_run]
    simp only
    cases hw : files.writeFile output (.text text) with
    | error cause => exact .inl ⟨cause, rfl, rfl⟩
    | ok files' => exact .inr ⟨files', rfl, rfl⟩
  · exact .inl ⟨parent, cause, hp, hd, by rw [split, bind_run_error hr]⟩

end SchemaLoom.Compile
