import SchemaLoom.Proofs.FileSystem.Writing

/-!
# File systems stay well-formed

What a path leads to stands in a directory. So making directories, writing files and removing a tree
leave every entry in a directory.
-/

namespace SchemaLoom.FileSystem

open SchemaLoom.Path

variable {fs fs' : FileSystem} {start place tree : Place} {pieces : List (List Char)} {p : Path}
  {entry : Entry} {contents : Contents}

/-- The place is in a directory, whether or not something is there. -/
structure Stands (fs : FileSystem) (place : Place) : Prop where
  valid : ValidPlace place
  below : fs.entry? place.dropLast = some .directory

theorem Stands.root : Stands fs [] := ⟨.nil, entry?_root fs⟩

namespace WellFormed

theorem stands (wf : WellFormed fs) (h : fs.entry? place ≠ none) : Stands fs place := by
  obtain ⟨entry, he⟩ := Option.ne_none_iff_exists'.mp h
  refine ⟨wf.valid he, ?_⟩
  rcases List.eq_nil_or_concat place with rfl | ⟨above, s, rfl⟩
  · simp
  · rw [List.concat_eq_append] at h ⊢
    rw [List.dropLast_concat]
    exact wf.parents above s h

theorem dropLast (wf : WellFormed fs) (h : fs.entry? place = some .directory) :
    fs.entry? place.dropLast = some .directory := by
  rcases List.eq_nil_or_concat place with rfl | ⟨above, s, rfl⟩
  · exact h
  · rw [List.concat_eq_append] at h ⊢
    rw [List.dropLast_concat]
    exact wf.parents above s (by simp [h])

theorem after (wf : WellFormed fs) (h : fs.entry? start = some .directory) {piece : List Char}
    (free : '/' ∉ piece) : Stands fs (after start piece) := by
  have valid : ValidPlace start := wf.valid h
  have stays : Stands fs start := ⟨valid, wf.dropLast h⟩
  unfold FileSystem.after
  cases hp : Component.ofPiece? piece with
  | none => exact stays
  | some c =>
    cases c with
    | root => exact stays
    | here => exact stays
    | name s =>
      refine ⟨valid.append (.singleton (isName_of_ofPiece? free hp)), ?_⟩
      rw [List.dropLast_concat]
      exact h
    | up =>
      refine ⟨fun s mem => valid s (List.dropLast_subset _ mem), ?_⟩
      exact wf.dropLast (wf.dropLast h)

theorem follow (wf : WellFormed fs) (free : ∀ piece ∈ pieces, '/' ∉ piece)
    (stands : Stands fs start) (h : fs.follow start pieces = .ok place) : Stands fs place := by
  induction pieces generalizing start with
  | nil =>
    obtain rfl : start = place := by simpa [FileSystem.follow] using h
    exact stands
  | cons piece pieces ih =>
    rw [follow_cons] at h
    apply ih (fun other mem => free other (List.mem_cons_of_mem _ mem)) _ h.2.2
    exact wf.after h.1 (free piece List.mem_cons_self)

theorem locate (wf : WellFormed fs) (absolute : p.isAbsolute = true)
    (h : fs.locate p = .ok place) : Stands fs place := by
  obtain ⟨cs, hcs⟩ := isAbsolute_iff.mp absolute
  apply wf.follow _ .root ((locate_absolute absolute).mp h).2
  rw [split_absolute hcs]
  intro piece mem
  exact Text.not_mem_of_mem_splitOn mem

end WellFormed

/-! ## The names of files -/

theorem follow_concat {piece : List Char} (h : fs.follow start (pieces ++ [piece]) = .ok place) :
    ∃ above, fs.entry? above = some .directory ∧ place = after above piece := by
  induction pieces generalizing start with
  | nil =>
    rw [List.nil_append, follow_cons, FileSystem.follow] at h
    exact ⟨start, h.1, (Except.ok.inj h.2.2).symm⟩
  | cons first pieces ih =>
    rw [List.cons_append, follow_cons] at h
    exact ih h.2.2

/-- Pieces that lead to a file end in its name. -/
theorem WellFormed.follow_file (wf : WellFormed fs) (ne : pieces ≠ [])
    (h : fs.follow start pieces = .ok place) (file : fs.entry? place = some (.file contents)) :
    ∃ s, (pieces.filterMap Component.ofPiece?).getLast? = some (.name s) ∧
      place.getLast? = some s := by
  obtain ⟨front, piece, rfl⟩ := (List.eq_nil_or_concat' pieces).resolve_left ne
  obtain ⟨above, directory, rfl⟩ := follow_concat h
  have only : ∀ q, fs.entry? q = some .directory → q ≠ FileSystem.after above piece := by
    rintro q hq rfl
    simp [hq] at file
  unfold FileSystem.after at only ⊢
  cases hp : Component.ofPiece? piece with
  | none => exact absurd (by simp [hp]) (only above directory)
  | some c =>
    cases c with
    | root => exact absurd (by simp [hp]) (only above directory)
    | here => exact absurd (by simp [hp]) (only above directory)
    | up => exact absurd (by simp [hp]) (only _ (wf.dropLast directory))
    | name s => exact ⟨s, by simp [hp], by simp⟩

theorem locate_relative (h : p.isAbsolute = false) (hl : fs.locate p = .ok place) :
    fs.follow fs.workingDirectory p.pieces = .ok place := by
  unfold FileSystem.locate at hl
  rw [h] at hl
  split at hl
  · simp at hl
  · split at hl
    · simp at hl
    · split at hl
      · simp at hl
      · simpa using hl

/-- A path that leads to a file has the name of the file. -/
theorem WellFormed.fileName?_of_find (wf : WellFormed fs)
    (h : fs.find p = .ok (place, .file contents)) : p.fileName? = place.getLast? := by
  obtain ⟨located, file⟩ := find_eq_ok.mp h
  have ends : ∀ (front : List Component) {pieces : List (List Char)},
      p.components = front ++ pieces.filterMap Component.ofPiece? → ∀ s,
      (pieces.filterMap Component.ofPiece?).getLast? = some (.name s) → p.fileName? = some s := by
    intro front pieces components s last
    unfold Path.fileName?
    rw [components, List.getLast?_append, last]
    rfl
  cases absolute : p.isAbsolute with
  | true =>
    obtain ⟨cs, hcs⟩ := isAbsolute_iff.mp absolute
    have followed := ((locate_absolute absolute).mp located).2
    have ne : p.split.2 ≠ [] := by
      rw [split_absolute hcs]
      exact Text.splitOn_ne_nil cs
    obtain ⟨s, last, name⟩ := wf.follow_file ne followed file
    rw [name]
    exact ends [.root] (split_components absolute) s last
  | false =>
    obtain ⟨front, components, -⟩ := p.components_eq
    obtain ⟨s, last, name⟩ := wf.follow_file (Text.splitOn_ne_nil p.chars)
      (locate_relative absolute located) file
    rw [name]
    exact ends front components s last

theorem mem_store {e : Place × Entry} {table : List (Place × Entry)}
    (mem : e ∈ store place entry table) : e.1 = place ∨ e ∈ table := by
  induction table with
  | nil =>
    obtain rfl := List.mem_singleton.mp mem
    exact .inl rfl
  | cons first table ih =>
    obtain ⟨q, old⟩ := first
    by_cases hq : q = place
    · rw [store, if_pos hq] at mem
      rcases List.mem_cons.mp mem with rfl | mem
      · exact .inl hq
      · exact .inr (List.mem_cons_of_mem _ mem)
    · rw [store, if_neg hq] at mem
      rcases List.mem_cons.mp mem with rfl | mem
      · exact .inr List.mem_cons_self
      · exact (ih mem).imp_right (List.mem_cons_of_mem _)

namespace WellFormed

/-- Directories are not replaced by files. -/
theorem put (wf : WellFormed fs) (stands : Stands fs place) (ne : place ≠ [])
    (kind : fs.entry? place = some .directory → entry = .directory) :
    WellFormed (fs.put place entry) := by
  have keeps : ∀ q, fs.entry? q = some .directory →
      FileSystem.entry? (fs.put place entry) q = some .directory := by
    intro q hq
    by_cases he : q = place
    · subst he
      rw [entry?_put_self ne, kind hq]
    · rw [entry?_put_of_ne he, hq]
  constructor
  · intro e mem
    rcases mem_store mem with he | mem
    · exact he ▸ stands.valid
    · exact wf.names e mem
  · intro q s h
    apply keeps
    by_cases he : q ++ [s] = place
    · have below := stands.below
      rw [← he, List.dropLast_concat] at below
      exact below
    · rw [entry?_put_of_ne he] at h
      exact wf.parents q s h

theorem makeDirectory (wf : WellFormed fs) (absolute : p.isAbsolute = true)
    (h : fs.makeDirectory p = .ok fs') : WellFormed fs' := by
  obtain ⟨place, hl, free, rfl⟩ := makeDirectory_eq_ok.mp h
  exact wf.put (wf.locate absolute hl) (ne_root_of_free free) fun _ => rfl

theorem writeFile (wf : WellFormed fs) (absolute : p.isAbsolute = true)
    (h : fs.writeFile p contents = .ok fs') : WellFormed fs' := by
  obtain ⟨place, hl, free, rfl⟩ := writeFile_eq_ok.mp h
  exact wf.put (wf.locate absolute hl) (ne_root_of_not_directory free) fun hd => absurd hd free

theorem ensureDirectory (wf : WellFormed fs) (absolute : p.isAbsolute = true)
    (h : fs.ensureDirectory p = .ok fs') : WellFormed fs' := by
  rcases ensureDirectory_eq_ok h with made | ⟨rfl, -⟩
  · exact wf.makeDirectory absolute made
  · exact wf

theorem ensureBelow (wf : WellFormed fs) {ancestors : List Path}
    (absolute : ∀ q ∈ p :: ancestors, q.isAbsolute = true)
    (h : fs.ensureBelow p ancestors = .ok fs') : WellFormed fs' := by
  have here := absolute p List.mem_cons_self
  induction ancestors generalizing fs fs' p with
  | nil => exact wf.ensureDirectory here h
  | cons parent rest ih =>
    rcases ensureBelow_cons h with made | ⟨between, below, made⟩
    · exact wf.ensureDirectory here made
    · have above : ∀ q ∈ parent :: rest, q.isAbsolute = true :=
        fun q mem => absolute q (List.mem_cons_of_mem _ mem)
      exact (ih wf above below (above parent List.mem_cons_self)).ensureDirectory here made

end WellFormed

theorem isAbsolute_ancestors {bound : Nat} (absolute : p.isAbsolute = true) :
    ∀ q ∈ ancestors p bound, q.isAbsolute = true := by
  induction bound generalizing p with
  | zero => simp [ancestors]
  | succ bound ih =>
    intro q mem
    rw [ancestors] at mem
    cases hp : p.parent? with
    | none => simp [hp] at mem
    | some parent =>
      have above := (components_parent? absolute hp).1
      simp only [hp, List.mem_cons] at mem
      rcases mem with rfl | mem
      · exact above
      · exact ih above q mem

namespace WellFormed

theorem makeDirectories (wf : WellFormed fs) (absolute : p.isAbsolute = true)
    (h : fs.makeDirectories p = .ok fs') : WellFormed fs' := by
  unfold FileSystem.makeDirectories at h
  split at h
  · exact Except.ok.inj h ▸ wf
  · apply wf.ensureBelow _ h
    exact List.forall_mem_cons.mpr ⟨absolute, isAbsolute_ancestors absolute⟩

theorem ready (wf : WellFormed fs) (absolute : p.isAbsolute = true) (h : Ready fs p fs') :
    WellFormed fs' := by
  cases hp : p.parent? with
  | none => exact h.rootless hp ▸ wf
  | some parent => exact wf.makeDirectories (components_parent? absolute hp).1 (h.made parent hp)

end WellFormed

/-! ## Removing a tree -/

theorem lookup_filter {table : List (Place × Entry)} {gone : Place → Bool} :
    lookup place (table.filter fun e => !gone e.1) =
      if gone place then none else lookup place table := by
  induction table with
  | nil => simp [lookup]
  | cons first table ih =>
    obtain ⟨q, old⟩ := first
    by_cases hq : q = place
    · subst hq
      cases hg : gone q with
      | true => rw [List.filter_cons_of_neg (by simp [hg]), ih, hg, if_pos rfl, if_pos rfl]
      | false => simp [hg, lookup]
    · cases hg : gone q with
      | true => rw [List.filter_cons_of_neg (by simp [hg]), ih, lookup, if_neg hq]
      | false =>
        rw [List.filter_cons_of_pos (by simp [hg]), lookup, if_neg hq, ih, lookup, if_neg hq]

theorem entry?_without (ne : tree ≠ []) (q : Place) :
    FileSystem.entry? (fs.without tree.isPrefixOf) q =
      if tree <+: q then none else fs.entry? q := by
  by_cases hq : q = []
  · subst hq
    simp [ entry?, ne]
  · unfold FileSystem.without FileSystem.entry?
    rw [if_neg hq, if_neg hq, lookup_filter]
    simp only [List.isPrefixOf_iff_prefix]

theorem entry?_without_nil {q : Place} (ne : q ≠ []) :
    FileSystem.entry? (fs.without (List.isPrefixOf [])) q = none := by
  unfold FileSystem.without FileSystem.entry?
  rw [if_neg ne, lookup_filter]
  simp

theorem WellFormed.without (wf : WellFormed fs) (tree : Place) :
    WellFormed (fs.without tree.isPrefixOf) := by
  constructor
  · intro e mem
    exact wf.names e (List.mem_filter.mp mem).1
  · intro q s h
    by_cases top : tree = []
    · subst top
      exact absurd (entry?_without_nil (by simp)) h
    · rw [entry?_without top] at h ⊢
      split at h
      · exact absurd rfl h
      · rename_i apart
        rw [if_neg fun hq => apart (hq.trans (List.prefix_append q [s]))]
        exact wf.parents q s h

/-! ## Removing a file -/

theorem removeFile_eq_ok : fs.removeFile p = .ok fs' ↔
    ∃ place contents, fs.find p = .ok (place, .file contents) ∧ fs' = fs.without (· == place) := by
  unfold removeFile
  split
  · simp_all
  · simp_all
  · rename_i place contents hf
    simp only [hf, Except.ok.injEq, Prod.mk.injEq, Entry.file.injEq]
    constructor
    · rintro rfl
      exact ⟨place, contents, ⟨rfl, rfl⟩, rfl⟩
    · rintro ⟨_, _, ⟨rfl, -⟩, rfl⟩
      rfl

theorem entry?_without_of_kept {gone : Place → Bool} {q : Place} (kept : gone q = false) :
    entry? (fs.without gone) q = fs.entry? q := by
  simp [FileSystem.without, FileSystem.entry?, lookup_filter, kept]

theorem entry?_without_of_gone {gone : Place → Bool} {q : Place} (h : gone q = true) (ne : q ≠ []) :
    entry? (fs.without gone) q = none := by
  simp [FileSystem.without, FileSystem.entry?, lookup_filter, h, ne]

theorem entry?_without_self {q : Place} (ne : q ≠ place) :
    entry? (fs.without (· == place)) q = fs.entry? q :=
  entry?_without_of_kept (by simpa using ne)

/-- Removing files leaves every entry in a directory. -/
theorem WellFormed.without_files (wf : WellFormed fs) {gone : Place → Bool}
    (files : ∀ q, gone q = true → ∃ c, fs.entry? q = some (.file c)) :
    WellFormed (fs.without gone) := by
  constructor
  · intro e mem
    exact wf.names e (List.mem_filter.mp mem).1
  · intro q s there
    cases h : gone (q ++ [s]) with
    | true => exact absurd (entry?_without_of_gone h (by simp)) there
    | false =>
      rw [entry?_without_of_kept h] at there
      have parent := wf.parents q s there
      rw [entry?_without_of_kept]
      · exact parent
      · by_contra removed
        obtain ⟨c, file⟩ := files q (by simpa using removed)
        simp [file] at parent

theorem WellFormed.removeFile (wf : WellFormed fs) (h : fs.removeFile p = .ok fs') :
    WellFormed fs' := by
  obtain ⟨place, contents, found, rfl⟩ := removeFile_eq_ok.mp h
  apply wf.without_files
  intro q same
  obtain rfl : q = place := by simpa using same
  exact ⟨contents, (find_eq_ok.mp found).2⟩

/-- A file keeps its text when another one is removed. -/
theorem readText_removeFile {q : Path} {text : String} (removed : fs.removeFile p = .ok fs')
    (absolute : q.isAbsolute = true)
    (apart : ∀ place, fs.locate p = .ok place → fs.locate q ≠ .ok place)
    (read : fs.readText q = .ok text) : fs'.readText q = .ok text := by
  obtain ⟨place, contents, hf, rfl⟩ := removeFile_eq_ok.mp removed
  obtain ⟨hl, he⟩ := find_eq_ok.mp hf
  obtain ⟨own, hown⟩ := readText_eq_ok.mp read
  obtain ⟨located, file⟩ := find_eq_ok.mp hown
  have keeps : ∀ d, fs.entry? d = some .directory →
      entry? (fs.without (· == place)) d = some .directory := by
    intro d hd
    rw [entry?_without_self _]
    · exact hd
    · rintro rfl
      simp [he] at hd
  refine readText_eq_ok.mpr ⟨own, find_eq_ok.mpr ⟨locate_mono absolute keeps located, ?_⟩⟩
  rw [entry?_without_self _]
  · exact file
  · rintro rfl
    exact apart own hl located

end SchemaLoom.FileSystem
