import SchemaLoom.Build
import SchemaLoom.Proofs.FileSystem.Standing

/-!
# File systems of one shape

Around a tree, two file systems of one shape have directories and files at the same places and hold
the files in the same order; what the files contain does not count. So both answer alike what is a
file, what is a directory, and which files are in it. Outputs written into the tree, other contents
of a file, and removing the tree keep the shape.
-/

namespace SchemaLoom.FileSystem

open SchemaLoom.Path

variable {fs fs' fs'' : FileSystem} {tree place ns : Place} {p : Path} {entry : Entry}
  {contents : Contents}

/-- Something about an entry that is a file, told from its place. -/
def ofFile {α : Type} (f : Place → Option α) (e : Place × Entry) : Option α :=
  match e.2 with
  | .file _ => f e.1
  | .directory => none

structure Similar (tree : Place) (fs fs' : FileSystem) : Prop where
  directory : ∀ q, Apart q tree →
    (fs'.entry? q = some .directory ↔ fs.entry? q = some .directory)
  file : ∀ q, ¬ Inside tree q →
    ((∃ c, fs'.entry? q = some (.file c)) ↔ ∃ c, fs.entry? q = some (.file c))
  listed : ∀ {α : Type} (f : Place → Option α), (∀ q, tree <+: q → f q = none) →
    fs'.entries.filterMap (ofFile f) = fs.entries.filterMap (ofFile f)

namespace Similar

theorem refl (tree : Place) (fs : FileSystem) : Similar tree fs fs :=
  ⟨fun _ _ => Iff.rfl, fun _ _ => Iff.rfl, fun _ _ => rfl⟩

theorem trans (h : Similar tree fs fs') (h' : Similar tree fs' fs'') : Similar tree fs fs'' where
  directory q apart := (h'.directory q apart).trans (h.directory q apart)
  file q outside := (h'.file q outside).trans (h.file q outside)
  listed f free := (h'.listed f free).trans (h.listed f free)

end Similar

/-! ## What keeps the shape -/

theorem Grown.similar (g : Grown tree fs fs') : Similar tree fs fs' where
  directory q apart := by rw [g.outside_of_not_prefix apart.not_inside apart.1]
  file q outside := exists_congr fun _ => g.file_iff outside
  listed f free := by
    apply g.filterMap_entries
    · intro q
      rfl
    · intro q entry inside
      cases entry with
      | directory => rfl
      | file c => exact free q inside.1

theorem filterMap_store_file {α : Type} {f : Place → Option α} {table : List (Place × Entry)}
    {old : Contents} (h : lookup place table = some (.file old)) :
    (store place (.file contents) table).filterMap (ofFile f) = table.filterMap (ofFile f) := by
  induction table with
  | nil => simp [lookup] at h
  | cons first table ih =>
    obtain ⟨q, e⟩ := first
    by_cases hq : q = place
    · rw [lookup, if_pos hq] at h
      obtain rfl := Option.some.inj h
      rw [store, if_pos hq, List.filterMap_cons, List.filterMap_cons]
      rfl
    · rw [lookup, if_neg hq] at h
      rw [store, if_neg hq, List.filterMap_cons, List.filterMap_cons, ih h]

theorem exists_entry (mem : (place, entry) ∈ fs.entries) : ∃ e, fs.entry? place = some e := by
  unfold entry?
  split
  · exact ⟨.directory, rfl⟩
  · revert mem
    generalize fs.entries = table
    intro mem
    induction table with
    | nil => exact absurd mem List.not_mem_nil
    | cons first table ih =>
      obtain ⟨q, e⟩ := first
      by_cases hq : q = place
      · exact ⟨e, by rw [lookup, if_pos hq]⟩
      · rw [lookup, if_neg hq]
        apply ih
        rcases List.mem_cons.mp mem with same | mem
        · exact absurd (congrArg Prod.fst same).symm hq
        · exact mem

/-- A file got other contents. -/
theorem similar_put {old : Contents} (h : fs.entry? place = some (.file old)) :
    Similar tree fs (fs.put place (.file contents)) := by
  have ne : place ≠ [] := by
    rintro rfl
    simp at h
  constructor
  · intro q _
    by_cases hq : q = place
    · subst hq
      rw [entry?_put_self ne, h]
      simp
    · rw [entry?_put_of_ne hq]
  · intro q _
    by_cases hq : q = place
    · subst hq
      rw [entry?_put_self ne, h]
      simp
    · rw [entry?_put_of_ne hq]
  · intro α f _
    have found : lookup place fs.entries = some (.file old) := by
      unfold entry? at h
      rwa [if_neg ne] at h
    exact filterMap_store_file found

/-- The tree was removed, or files in it. -/
theorem similar_without {gone : Place → Bool} (ne : tree ≠ [])
    (below : ∀ q, gone q = true → tree <+: q)
    (root : gone tree = true → fs.entry? tree = some .directory) :
    Similar tree fs (fs.without gone) := by
  constructor
  · intro q apart
    rw [entry?_without_of_kept (Bool.eq_false_iff.mpr fun h => apart.2 (below q h))]
  · intro q outside
    cases h : gone q with
    | false => rw [entry?_without_of_kept h]
    | true =>
      obtain rfl : q = tree := by
        by_contra other
        exact outside ⟨below q h, other⟩
      rw [entry?_without_of_gone h ne, root h]
      simp
  · intro α f free
    unfold without
    rw [List.filterMap_filter]
    apply List.filterMap_congr
    rintro ⟨q, entry⟩ -
    cases h : gone q with
    | false => simp
    | true =>
      cases entry with
      | directory => rfl
      | file c => exact (free q (below q h)).symm

/-! ## What the shape decides -/

/-- What is found in one file system is found in another if there is something of its kind. -/
theorem find_transfer (wf : WellFormed fs') (h : p.LeadsTo ns) {old : Entry}
    (hf : fs.find p = .ok (ns, old)) (he : fs'.entry? ns = some entry)
    (kind : old = .directory → entry = .directory) : fs'.find p = .ok (ns, entry) := by
  rw [find_eq_ok] at hf ⊢
  refine ⟨locate_transfer h ?_ hf.1, he⟩
  rintro m ⟨rest, rfl⟩ hd
  by_cases hr : rest = []
  · rw [hr, List.append_nil] at hf he
    have old := Option.some.inj (hf.2.symm.trans hd)
    rw [he, kind old]
  · exact wf.ancestors hr (by simp [he])

theorem readText_congr (wf : WellFormed fs) (wf' : WellFormed fs') (h : p.LeadsTo ns)
    (same : ∀ c, fs'.entry? ns = some (.file c) ↔ fs.entry? ns = some (.file c)) {s : String} :
    fs'.readText p = .ok s ↔ fs.readText p = .ok s := by
  rw [readText_eq_ok, readText_eq_ok]
  constructor
  · rintro ⟨q, hf⟩
    obtain ⟨rfl, he⟩ := find_leadsTo h hf
    exact ⟨q, find_transfer wf h hf ((same _).mp he) id⟩
  · rintro ⟨q, hf⟩
    obtain ⟨rfl, he⟩ := find_leadsTo h hf
    exact ⟨q, find_transfer wf' h hf ((same _).mpr he) id⟩

namespace Similar

variable (similar : Similar tree fs fs') (wf : WellFormed fs) (wf' : WellFormed fs')
include similar wf wf'

theorem find_directory (h : p.LeadsTo ns) (apart : Apart ns tree) :
    fs'.find p = .ok (ns, .directory) ↔ fs.find p = .ok (ns, .directory) := by
  constructor
  · intro hf
    have here := (similar.directory ns apart).mp (find_leadsTo h hf).2
    exact find_transfer wf h hf here id
  · intro hf
    have here := (similar.directory ns apart).mpr (find_leadsTo h hf).2
    exact find_transfer wf' h hf here id

theorem isDirectory (h : p.LeadsTo ns) (apart : Apart ns tree) :
    fs'.isDirectory p = fs.isDirectory p := by
  rw [Bool.eq_iff_iff, isDirectory_iff, isDirectory_iff]
  constructor
  · rintro ⟨q, hf⟩
    obtain ⟨rfl, -⟩ := find_leadsTo h hf
    exact ⟨_, (similar.find_directory wf wf' h apart).mp hf⟩
  · rintro ⟨q, hf⟩
    obtain ⟨rfl, -⟩ := find_leadsTo h hf
    exact ⟨_, (similar.find_directory wf wf' h apart).mpr hf⟩

theorem isFile (h : p.LeadsTo ns) (outside : ¬ Inside tree ns) : fs'.isFile p = fs.isFile p := by
  rw [Bool.eq_iff_iff, isFile_iff, isFile_iff]
  constructor
  · rintro ⟨q, c, hf⟩
    obtain ⟨rfl, he⟩ := find_leadsTo h hf
    obtain ⟨c', he'⟩ := (similar.file q outside).mp ⟨c, he⟩
    exact ⟨q, c', find_transfer wf h hf he' (by simp)⟩
  · rintro ⟨q, c, hf⟩
    obtain ⟨rfl, he⟩ := find_leadsTo h hf
    obtain ⟨c', he'⟩ := (similar.file q outside).mpr ⟨c, he⟩
    exact ⟨q, c', find_transfer wf' h hf he' (by simp)⟩

end Similar

/-- The name of a place directly in a directory. -/
def nameIn (base q : Place) : Option String :=
  match namesBelow? base q with
  | some [name] => some name
  | _ => none

theorem fileIn_eq (base : Place) : fileIn base = ofFile (nameIn base) := by
  funext e
  obtain ⟨q, entry⟩ := e
  cases entry with
  | directory => rfl
  | file c =>
    unfold fileIn ofFile nameIn
    cases namesBelow? base q with
    | none => simp
    | some names => rcases names with _ | ⟨name, _ | ⟨other, names⟩⟩ <;> simp

theorem Similar.filesIn (similar : Similar tree fs fs') (wf : WellFormed fs)
    (wf' : WellFormed fs') (h : p.LeadsTo ns) (apart : Apart ns tree) :
    fs'.filesIn p = fs.filesIn p := by
  have same := similar.find_directory wf wf' h apart
  by_cases hf : fs.find p = .ok (ns, .directory)
  · rw [filesIn_of_find hf, filesIn_of_find (same.mpr hf), fileIn_eq, similar.listed]
    intro q inside
    unfold nameIn
    split
    · rename_i name hn
      rw [namesBelow?_eq_some] at hn
      exact absurd (hn ▸ inside) apart.below.2
    · rfl
  · have none : ∀ {fs : FileSystem}, fs.find p ≠ .ok (ns, .directory) →
        ∀ base, fs.find p ≠ .ok (base, .directory) := by
      intro fs missing base hb
      obtain ⟨rfl, -⟩ := find_leadsTo h hb
      exact missing hb
    rw [filesIn_eq_nil (none hf), filesIn_eq_nil (none (mt same.mp hf))]

/-- A path with names added. -/
def extended (p : Path) (names : List String) : Path := names.foldl (fun q name => q.join ⟨name⟩) p

theorem filesBelow_of_find {base : Place} (hf : fs.find p = .ok (base, .directory)) :
    fs.filesBelow p =
      fs.entries.filterMap (ofFile fun q => (namesBelow? base q).map (extended p)) := by
  unfold FileSystem.filesBelow
  rw [hf]
  apply List.filterMap_congr
  intro e _
  obtain ⟨q, entry⟩ := e
  cases entry with
  | directory => rfl
  | file c =>
    unfold ofFile extended
    cases hn : namesBelow? base q <;> simp [hn]

theorem Similar.filesBelow (similar : Similar tree fs fs') (wf : WellFormed fs)
    (wf' : WellFormed fs') (h : p.LeadsTo ns) (apart : Apart ns tree)
    (hf : fs.find p = .ok (ns, .directory)) : fs'.filesBelow p = fs.filesBelow p := by
  have same := similar.find_directory wf wf' h apart
  rw [filesBelow_of_find hf, filesBelow_of_find (same.mpr hf), similar.listed]
  intro q inside
  cases hn : namesBelow? ns q with
  | none => rfl
  | some names =>
    rw [namesBelow?_eq_some] at hn
    exact absurd (hn ▸ inside) apart.below.2

/-! ## The templates below a directory -/

theorem extended_pathOf {base : Place} {names : List String} (h : ValidPlace (base ++ names)) :
    extended (pathOf base) names = pathOf (base ++ names) := by
  induction names generalizing base with
  | nil => simp [extended]
  | cons name names ih =>
    have split : base ++ name :: names = base ++ [name] ++ names := by simp
    rw [split] at h ⊢
    rw [← ih h, extended, List.foldl_cons, pathOf_join h.left.left h.left.last, extended]

theorem components_extended {names : List String} (h : p.isAbsolute = true)
    (valid : ValidPlace names) :
    (extended p names).components = p.components ++ names.map .name := by
  induction names generalizing p with
  | nil => simp [extended]
  | cons name names ih =>
    have isName := valid name List.mem_cons_self
    rw [extended, List.foldl_cons, ← extended,
      ih (join_isAbsolute _ h) (.right (a := [name]) valid),
      components_join_name h isName, List.append_assoc]
    rfl

theorem isAbsolute_extended {names : List String} (h : p.isAbsolute = false)
    (valid : ValidPlace names) : (extended p names).isAbsolute = false := by
  induction names generalizing p with
  | nil => exact h
  | cons name names ih =>
    have isName := valid name List.mem_cons_self
    exact ih (isAbsolute_join_of_relative h isName.isAbsolute) (.right (a := [name]) valid)

theorem leadsTo_extended {base : Place} {names : List String} (h : p.LeadsTo base)
    (valid : ValidPlace names) : (extended p names).LeadsTo (base ++ names) := by
  rw [LeadsTo, components_extended h.isAbsolute valid, h, List.map_append, List.cons_append]

/-- The files below a directory with a canonical path. -/
theorem mem_filesBelow (wf : WellFormed fs) {base : Place}
    (hf : fs.find (pathOf base) = .ok (base, .directory)) :
    p ∈ fs.filesBelow (pathOf base) ↔
      ∃ names c, p = pathOf (base ++ names) ∧ (base ++ names, .file c) ∈ fs.entries := by
  rw [filesBelow_of_find hf, List.mem_filterMap]
  constructor
  · rintro ⟨⟨q, entry⟩, mem, found⟩
    cases entry with
    | directory => exact absurd found (by simp [ofFile])
    | file c =>
      obtain ⟨names, hn, rfl⟩ := Option.map_eq_some_iff.mp found
      obtain rfl := namesBelow?_eq_some.mp hn
      exact ⟨names, c, extended_pathOf (wf.names _ mem), mem⟩
  · rintro ⟨names, c, rfl, mem⟩
    refine ⟨_, mem, ?_⟩
    unfold ofFile
    simp only [namesBelow?_eq_some.mpr rfl, Option.map_some]
    rw [extended_pathOf (wf.names _ mem)]

theorem mem_templatesBelow {directory : Path} : p ∈ fs.templatesBelow directory ↔
    p ∈ fs.filesBelow directory ∧ p.isTemplate = true ∧
      (p.fileName?.getD "") ∉ ignoredFiles := by
  unfold templatesBelow Path.sort
  rw [List.mem_mergeSort, List.mem_filter]
  simp

theorem Similar.templatesBelow (similar : Similar tree fs fs') (wf : WellFormed fs)
    (wf' : WellFormed fs') (h : p.LeadsTo ns) (apart : Apart ns tree)
    (hf : fs.find p = .ok (ns, .directory)) : fs'.templatesBelow p = fs.templatesBelow p := by
  unfold FileSystem.templatesBelow
  rw [similar.filesBelow wf wf' h apart hf]

end SchemaLoom.FileSystem
