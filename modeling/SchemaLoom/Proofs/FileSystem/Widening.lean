import Mathlib.Data.List.Sort
import SchemaLoom.Proofs.FileSystem.Similar

/-!
# File systems with more files

One file system is wider than another if it has more directories or more files, and all else is the
same. Both answer alike what is at a place where no file is new, and list alike what is in a
directory as far as nothing of that is new.
-/

namespace SchemaLoom.FileSystem

open SchemaLoom.Path

variable {fs fs' : FileSystem} {more : Place → Prop} {place ns : Place} {p : Path}
  {entry : Entry} {contents : Contents}

/-- The table of files has no file at the place. -/
def Empties (files : FileSystem) (place : Place) : Prop :=
  ∀ contents, (place, Entry.file contents) ∉ files.entries

namespace Empties

variable (empty : fs.Empties place)
include empty

theorem entry? (contents : Contents) : fs.entry? place ≠ some (.file contents) := by
  intro file
  have ne : place ≠ [] := by
    rintro rfl
    simp at file
  exact empty contents (mem_entries file ne)

theorem isFile (leads : p.LeadsTo place) : fs.isFile p = false := by
  rw [← Bool.not_eq_true]
  intro file
  obtain ⟨q, contents, found⟩ := isFile_iff.mp file
  exact empty.entry? contents (find_leadsTo leads found).2

end Empties

/-- Files are new at the given places only. Whatever else is a file or a directory is so in both,
with the same contents, and files are in the same order. -/
structure Widens (more : Place → Prop) (fs fs' : FileSystem) : Prop where
  directory : ∀ q, fs.entry? q = some .directory → fs'.entry? q = some .directory
  file : ∀ q, ¬ more q → ∀ c, fs'.entry? q = some (.file c) ↔ fs.entry? q = some (.file c)
  absent : ∀ q, more q → fs.Empties q
  listed : ∀ {α : Type} (f : Place → Option α), (∀ q, more q → f q = none) →
    fs'.entries.filterMap (ofFile f) = fs.entries.filterMap (ofFile f)

/-! ## Files that come and go -/

theorem filterMap_store_new {α : Type} {f : Place → Option α} {table : List (Place × Entry)}
    (free : lookup place table = none) (new : f place = none) :
    (store place entry table).filterMap (ofFile f) = table.filterMap (ofFile f) := by
  have nothing : ofFile f (place, entry) = none := by
    cases entry with
    | directory => rfl
    | file c => exact new
  rw [store_of_lookup_none free, List.filterMap_append]
  simp [nothing]

/-- A file was created. -/
theorem widens_put (free : fs.entry? place = none) :
    Widens (· = place) fs (fs.put place (.file contents)) := by
  have ne := ne_root_of_free free
  constructor
  · intro q directory
    rw [entry?_put_of_ne]
    · exact directory
    · rintro rfl
      simp [free] at directory
  · intro q other c
    rw [entry?_put_of_ne other]
  · rintro q rfl c mem
    obtain ⟨e, there⟩ := exists_entry mem
    simp [free] at there
  · intro α f new
    exact filterMap_store_new (lookup_of_entry?_none free) (new place rfl)

/-- Files were removed. -/
theorem widens_without {gone : Place → Bool}
    (files : ∀ q, gone q = true → ∃ c, fs.entry? q = some (.file c)) :
    Widens (gone · = true) (fs.without gone) fs := by
  constructor
  · intro q directory
    cases h : gone q with
    | false => rwa [entry?_without_of_kept h] at directory
    | true =>
      have ne : q ≠ [] := by
        rintro rfl
        obtain ⟨c, file⟩ := files [] h
        simp at file
      rw [entry?_without_of_gone h ne] at directory
      simp at directory
  · intro q other c
    rw [entry?_without_of_kept (by simpa using other)]
  · intro q h c mem
    have kept := (List.mem_filter.mp mem).2
    simp [h] at kept
  · intro α f new
    unfold FileSystem.without
    rw [List.filterMap_filter]
    apply List.filterMap_congr
    rintro ⟨q, entry⟩ -
    cases h : gone q with
    | false => simp
    | true =>
      cases entry with
      | directory => simp [ofFile]
      | file c => simp [ofFile, new q h]

/-! ## What a wider file system answers -/

/-- Sorting names and leaving some out can be done in either order. -/
theorem filter_sorted (keep : String → Bool) (names : List String) :
    (names.mergeSort fun a b => !(b < a)).filter keep =
      (names.filter keep).mergeSort fun a b => !(b < a) := by
  apply List.Perm.eq_of_pairwise' ((sorted_names names).filter keep) (sorted_names _)
  exact ((List.mergeSort_perm _ _).filter keep).trans (List.mergeSort_perm _ _).symm

theorem mem_filesIn {name : String} (found : fs.find p = .ok (ns, .directory))
    (mem : (ns ++ [name], .file contents) ∈ fs.entries) : p.join ⟨name⟩ ∈ fs.filesIn p := by
  rw [filesIn_of_find found]
  apply List.mem_map_of_mem
  rw [List.mem_mergeSort]
  refine List.mem_filterMap.mpr ⟨_, mem, ?_⟩
  simp [fileIn, namesBelow?_eq_some.mpr rfl]

namespace Widens

variable (widens : Widens more fs fs')
include widens

theorem keeps (h : fs.entry? place = some (.file contents)) :
    fs'.entry? place = some (.file contents) :=
  (widens.file place (fun new => Empties.entry? (widens.absent place new) contents h) _).mpr h

theorem old (mem : (place, .file contents) ∈ fs.entries) : ¬ more place :=
  fun new => widens.absent place new contents mem

/-- Where no file is new, both tables hold a file or none does. -/
theorem lists (old : ¬ more place) :
    (∃ c, (place, .file c) ∈ fs'.entries) ↔ ∃ c, (place, .file c) ∈ fs.entries := by
  classical
  let kept : Place → Option Place := fun q => if more q then none else some q
  have found : ∀ {fs : FileSystem}, place ∈ fs.entries.filterMap (ofFile kept) ↔
      ∃ c, (place, .file c) ∈ fs.entries := by
    intro fs
    rw [List.mem_filterMap]
    constructor
    · rintro ⟨⟨q, entry⟩, mem, same⟩
      cases entry with
      | directory => simp [ofFile] at same
      | file c =>
        by_cases new : more q
        · simp [ofFile, kept, new] at same
        · obtain rfl : q = place := by simpa [ofFile, kept, new] using same
          exact ⟨c, mem⟩
    · rintro ⟨c, mem⟩
      exact ⟨_, mem, by simp [ofFile, kept, old]⟩
  rw [← found, ← found, widens.listed kept fun q new => if_pos new]

variable (wf : WellFormed fs) (wf' : WellFormed fs')

section

include wf'

theorem find_directory (h : p.LeadsTo ns) (found : fs.find p = .ok (ns, .directory)) :
    fs'.find p = .ok (ns, .directory) :=
  find_transfer wf' h found (widens.directory ns (find_leadsTo h found).2) id

theorem isDirectory (h : p.LeadsTo ns) (directory : fs.isDirectory p = true) :
    fs'.isDirectory p = true := by
  obtain ⟨q, found⟩ := isDirectory_iff.mp directory
  obtain ⟨rfl, -⟩ := find_leadsTo h found
  exact isDirectory_iff.mpr ⟨q, widens.find_directory wf' h found⟩

theorem isFile_mono (h : p.LeadsTo ns) (file : fs.isFile p = true) : fs'.isFile p = true := by
  obtain ⟨q, c, found⟩ := isFile_iff.mp file
  obtain ⟨rfl, there⟩ := find_leadsTo h found
  exact isFile_iff.mpr ⟨q, c, find_transfer wf' h found (widens.keeps there) id⟩

/-- As far as nothing new is kept, what is listed of a directory is the same. -/
theorem filesIn {keep : Path → Bool} (h : p.LeadsTo ns)
    (found : fs.find p = .ok (ns, .directory))
    (spared : ∀ name c, more (ns ++ [name]) → (ns ++ [name], .file c) ∈ fs'.entries →
      keep (p.join ⟨name⟩) = false) :
    (fs'.filesIn p).filter keep = (fs.filesIn p).filter keep := by
  classical
  have found' := widens.find_directory wf' h found
  let keepName : String → Bool := keep ∘ fun name => p.join ⟨name⟩
  let old : Place → Option String := fun q => if more q then none else (nameIn ns q).filter keepName
  have narrow : fs.entries.filterMap (fun e => (ofFile (nameIn ns) e).filter keepName) =
      fs.entries.filterMap (ofFile old) := by
    apply List.filterMap_congr
    rintro ⟨q, entry⟩ mem
    cases entry with
    | directory => rfl
    | file c =>
      have free : ¬ more q := fun new => widens.absent q new c mem
      simp [ofFile, old, free]
  have wide : fs'.entries.filterMap (fun e => (ofFile (nameIn ns) e).filter keepName) =
      fs'.entries.filterMap (ofFile old) := by
    apply List.filterMap_congr
    rintro ⟨q, entry⟩ mem
    cases entry with
    | directory => rfl
    | file c =>
      by_cases new : more q
      · cases named : nameIn ns q with
        | none => simp [ofFile, old, named]
        | some name =>
          have place : fileIn ns (q, .file c) = some name := by rwa [fileIn_eq]
          obtain rfl : q = ns ++ [name] := fileIn_eq_some place
          simp [ofFile, old, named, new, keepName, spared name c new mem]
      · simp [ofFile, old, new]
  have names : (fs'.entries.filterMap (fileIn ns)).filter keepName =
      (fs.entries.filterMap (fileIn ns)).filter keepName := by
    rw [fileIn_eq, List.filter_filterMap, List.filter_filterMap, narrow, wide]
    exact widens.listed old fun q new => if_pos new
  rw [filesIn_of_find found, filesIn_of_find found', List.filter_map, List.filter_map,
    filter_sorted, filter_sorted]
  exact congrArg (fun names : List String => (names.mergeSort fun a b => !(b < a)).map fun name =>
    p.join ⟨name⟩) names

end

section

variable (h : p.LeadsTo ns) (old : ¬ more ns)
include wf wf' h old

theorem isFile : fs'.isFile p = fs.isFile p := by
  rw [Bool.eq_iff_iff, isFile_iff, isFile_iff]
  constructor
  · rintro ⟨q, c, found⟩
    obtain ⟨rfl, there⟩ := find_leadsTo h found
    exact ⟨q, c, find_transfer wf h found ((widens.file q old c).mp there) id⟩
  · rintro ⟨q, c, found⟩
    obtain ⟨rfl, there⟩ := find_leadsTo h found
    exact ⟨q, c, find_transfer wf' h found ((widens.file q old c).mpr there) id⟩

theorem readText {s : String} : fs'.readText p = .ok s ↔ fs.readText p = .ok s :=
  readText_congr wf wf' h (widens.file ns old)

end

end Widens

end SchemaLoom.FileSystem
