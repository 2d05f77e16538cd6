import Mathlib.Data.String.Basic
import SchemaLoom.Proofs.FileSystem.Growth

/-!
# Reading from a file system that grew

An absolute path without `..` is followed to the place that it leads to, through directories only.
So what lies outside the output tree is found, read and listed in the same way before and after
outputs are written.
-/

namespace SchemaLoom.FileSystem

open SchemaLoom.Path

variable {fs fs' : FileSystem} {start place ns : Place} {pieces : List (List Char)} {p : Path}
  {entry : Entry} {tree : Place}

/-! ## Following pieces -/

/-- Where a piece leads from a directory. -/
def after (start : Place) (piece : List Char) : Place :=
  match Component.ofPiece? piece with
  | some (.name s) => start ++ [s]
  | some .up => start.dropLast
  | _ => start

theorem requireDirectory_eq_ok :
    fs.requireDirectory place = .ok () ↔ fs.entry? place = some .directory := by
  unfold requireDirectory
  split <;> simp_all

theorem follow_cons {piece : List Char} : fs.follow start (piece :: pieces) = .ok place ↔
    fs.entry? start = some .directory ∧ sizeInBytes piece ≤ maxNameSize ∧
      fs.follow (after start piece) pieces = .ok place := by
  rw [← requireDirectory_eq_ok, follow]
  cases hr : fs.requireDirectory start with
  | error e => simp
  | ok u =>
    by_cases hs : sizeInBytes piece > maxNameSize
    · have hl : ¬ sizeInBytes piece ≤ maxNameSize := by omega
      simp [hs, hl]
    · simp only [hs, if_false, after, true_and]
      have hl : sizeInBytes piece ≤ maxNameSize := by omega
      cases hp : Component.ofPiece? piece with
      | none => simp [hl]
      | some c => cases c <;> simp [hl]

theorem follow_mono (keeps : ∀ q, fs.entry? q = some .directory → fs'.entry? q = some .directory)
    (h : fs.follow start pieces = .ok place) : fs'.follow start pieces = .ok place := by
  induction pieces generalizing start with
  | nil => exact h
  | cons piece pieces ih =>
    rw [follow_cons] at h ⊢
    exact ⟨keeps _ h.1, h.2.1, ih h.2.2⟩

/-- A path without `..` is either at its end, or its next piece adds nothing or a name. -/
theorem straight_cons {piece : List Char} (start : Place)
    (h : (piece :: pieces).filterMap Component.ofPiece? = ns.map .name) :
    (after start piece = start ∧ pieces.filterMap Component.ofPiece? = ns.map .name) ∨
      ∃ s rest, ns = s :: rest ∧ after start piece = start ++ [s] ∧
        pieces.filterMap Component.ofPiece? = rest.map .name := by
  rw [List.filterMap_cons] at h
  cases hp : Component.ofPiece? piece with
  | none => exact .inl ⟨by simp [after, hp], by simpa [hp] using h⟩
  | some c =>
    cases ns with
    | nil => simp [hp] at h
    | cons s rest =>
      rw [hp] at h
      simp only [List.map_cons, List.cons.injEq] at h
      exact .inr ⟨s, rest, rfl, by simp [after, hp, h.1], h.2⟩

theorem follow_straight (hn : pieces.filterMap Component.ofPiece? = ns.map .name)
    (h : fs.follow start pieces = .ok place) :
    place = start ++ ns ∧
      ∀ m rest, ns = m ++ rest → rest ≠ [] → fs.entry? (start ++ m) = some .directory := by
  induction pieces generalizing start ns with
  | nil =>
    obtain rfl : ns = [] := by simpa using hn.symm
    refine ⟨by simpa [follow] using h.symm, ?_⟩
    intro m rest he hr
    exact absurd (List.append_eq_nil_iff.mp he.symm).2 hr
  | cons piece pieces ih =>
    rw [follow_cons] at h
    rcases straight_cons start hn with ⟨ha, hn⟩ | ⟨s, ns, rfl, ha, hn⟩
    · exact ih hn (ha ▸ h.2.2)
    · obtain ⟨rfl, visited⟩ := ih hn (ha ▸ h.2.2)
      refine ⟨by simp, fun m rest he hr => ?_⟩
      cases m with
      | nil => simpa using h.1
      | cons t m =>
        obtain ⟨rfl, rfl⟩ := List.cons.inj he
        simpa using visited m rest rfl hr

/-- Following depends only on which places on the way are directories. -/
theorem follow_transfer (hn : pieces.filterMap Component.ofPiece? = ns.map .name)
    (keeps : ∀ m, m <+: ns → fs.entry? (start ++ m) = some .directory →
      fs'.entry? (start ++ m) = some .directory)
    (h : fs.follow start pieces = .ok place) : fs'.follow start pieces = .ok place := by
  induction pieces generalizing start ns with
  | nil => exact h
  | cons piece pieces ih =>
    rw [follow_cons] at h ⊢
    refine ⟨by simpa using keeps [] List.nil_prefix (by simpa using h.1), h.2.1, ?_⟩
    rcases straight_cons start hn with ⟨ha, hn⟩ | ⟨s, ns, rfl, ha, hn⟩
    · rw [ha] at h ⊢
      exact ih hn keeps h.2.2
    · rw [ha] at h ⊢
      apply ih hn _ h.2.2
      intro m hm
      simpa using keeps (s :: m) (by simpa using hm)

/-- Behind a final `..` stands a directory that was passed on the way. -/
theorem follow_up (hn : pieces.filterMap Component.ofPiece? = ns.map .name ++ [.up])
    (above : fs.entry? start.dropLast = some .directory)
    (h : fs.follow start pieces = .ok place) : fs.entry? place = some .directory := by
  induction pieces generalizing start ns with
  | nil => simp at hn
  | cons piece pieces ih =>
    rw [follow_cons] at h
    rw [List.filterMap_cons] at hn
    cases hp : Component.ofPiece? piece with
    | none =>
      have ha : after start piece = start := by simp [after, hp]
      exact ih (by simpa [hp] using hn) above (ha ▸ h.2.2)
    | some c =>
      rw [hp] at hn
      cases ns with
      | nil =>
        simp only [List.map_nil, List.nil_append, List.cons.injEq] at hn
        obtain ⟨rfl, hn⟩ := hn
        have ha : after start piece = start.dropLast := by simp [after, hp]
        have void : pieces.filterMap Component.ofPiece? = ([] : Place).map .name := hn
        have rest := ha ▸ h.2.2
        rw [(follow_straight void rest).1, List.append_nil]
        exact above
      | cons s ns =>
        simp only [List.map_cons, List.cons_append, List.cons.injEq] at hn
        obtain ⟨rfl, hn⟩ := hn
        have ha : after start piece = start ++ [s] := by simp [after, hp]
        exact ih hn (by simpa using h.1) (ha ▸ h.2.2)

/-! ## Absolute paths -/

/-- What a path must be like to be followed at all. -/
def Usable (p : Path) : Prop := '\x00' ∉ p.chars ∧ sizeInBytes p.chars ≤ maxPathSize

theorem locate_absolute (h : p.isAbsolute = true) :
    fs.locate p = .ok place ↔ Usable p ∧ fs.follow [] p.split.2 = .ok place := by
  obtain ⟨cs, hcs⟩ := isAbsolute_iff.mp h
  have hn : p.chars.isEmpty = false := by simp [hcs]
  unfold locate Usable
  rw [if_neg (by simp [hn])]
  by_cases hz : '\x00' ∈ p.chars
  · rw [if_pos (by simpa using hz)]
    simp [hz]
  · rw [if_neg (by simpa using hz)]
    by_cases hs : sizeInBytes p.chars > maxPathSize
    · rw [if_pos hs]
      have : ¬ sizeInBytes p.chars ≤ maxPathSize := by omega
      simp [this]
    · rw [if_neg hs, if_pos h]
      have : sizeInBytes p.chars ≤ maxPathSize := by omega
      simp [hz, this]

theorem locate_mono (h : p.isAbsolute = true)
    (keeps : ∀ q, fs.entry? q = some .directory → fs'.entry? q = some .directory)
    (hl : fs.locate p = .ok place) : fs'.locate p = .ok place := by
  rw [locate_absolute h] at hl ⊢
  exact ⟨hl.1, follow_mono keeps hl.2⟩


theorem split_components (h : p.isAbsolute = true) :
    p.components = .root :: p.split.2.filterMap Component.ofPiece? := by
  obtain ⟨cs, hcs⟩ := isAbsolute_iff.mp h
  rw [components_absolute hcs, split_absolute hcs]
  rfl

theorem split_leadsTo (h : p.LeadsTo ns) :
    p.split.2.filterMap Component.ofPiece? = ns.map .name :=
  (List.cons.inj ((split_components h.isAbsolute).symm.trans h)).2

theorem find_eq_ok : fs.find p = .ok (place, entry) ↔
    fs.locate p = .ok place ∧ fs.entry? place = some entry := by
  unfold find
  split
  · rename_i e hl
    simp [hl]
  · rename_i q hl
    rw [hl]
    constructor
    · intro h
      split at h
      · rename_i e he
        simp only [Except.ok.injEq, Prod.mk.injEq] at h
        obtain ⟨rfl, rfl⟩ := h
        exact ⟨rfl, he⟩
      · simp at h
    · rintro ⟨⟨⟩, he⟩
      simp [he]

theorem locate_leadsTo (h : p.LeadsTo ns) (hl : fs.locate p = .ok place) :
    place = ns ∧ ∀ m rest, ns = m ++ rest → rest ≠ [] → fs.entry? m = some .directory := by
  have := follow_straight (split_leadsTo h) ((locate_absolute h.isAbsolute).mp hl).2
  simpa using this

theorem locate_transfer (h : p.LeadsTo ns)
    (keeps : ∀ m, m <+: ns → fs.entry? m = some .directory → fs'.entry? m = some .directory)
    (hl : fs.locate p = .ok place) : fs'.locate p = .ok place := by
  rw [locate_absolute h.isAbsolute] at hl ⊢
  exact ⟨hl.1, follow_transfer (split_leadsTo h) (by simpa using keeps) hl.2⟩

theorem find_leadsTo (h : p.LeadsTo ns) (hf : fs.find p = .ok (place, entry)) :
    place = ns ∧ fs.entry? ns = some entry := by
  obtain ⟨hl, he⟩ := find_eq_ok.mp hf
  obtain rfl := (locate_leadsTo h hl).1
  exact ⟨rfl, he⟩

theorem find_up {ns : Place} (hc : p.components = .root :: ns.map .name ++ [.up])
    (hf : fs.find p = .ok (place, entry)) : entry = .directory := by
  have ha : p.isAbsolute = true := isAbsolute_iff_components.mpr ⟨_, hc⟩
  obtain ⟨hl, he⟩ := find_eq_ok.mp hf
  rw [split_components ha, List.cons_append] at hc
  have := follow_up (List.cons.inj hc).2 (by simp) ((locate_absolute ha).mp hl).2
  exact Option.some.inj (he.symm.trans this)

/-! ## Outside the tree -/

theorem Grown.find_file (g : Grown tree fs fs') (wf : WellFormed fs) (h : p.LeadsTo ns)
    (ho : ¬ Inside tree ns) {contents : Contents} :
    fs'.find p = .ok (ns, .file contents) ↔ fs.find p = .ok (ns, .file contents) := by
  rw [find_eq_ok, find_eq_ok, g.file_iff ho]
  apply and_congr_left
  intro he
  constructor
  · apply locate_transfer h
    rintro m ⟨rest, rfl⟩ hd
    by_cases hr : rest = []
    · rw [hr, List.append_nil] at he ho
      rw [(g.file_iff ho).mpr he] at hd
      simp at hd
    · exact wf.ancestors hr (by simp [he])
  · exact locate_transfer h fun m _ hd => g.keepsDirectory hd

theorem Grown.find_directory (g : Grown tree fs fs') (wf : WellFormed fs) (h : p.LeadsTo ns)
    (ho : ¬ Inside tree ns) (hp : ¬ ns <+: tree) :
    fs'.find p = .ok (ns, .directory) ↔ fs.find p = .ok (ns, .directory) := by
  rw [find_eq_ok, find_eq_ok, g.outside_of_not_prefix ho hp]
  apply and_congr_left
  intro he
  constructor
  · apply locate_transfer h
    rintro m ⟨rest, rfl⟩ -
    by_cases hr : rest = []
    · simpa [hr] using he
    · exact wf.ancestors hr (by simp [he])
  · exact locate_transfer h fun m _ hd => g.keepsDirectory hd

theorem readText_eq_ok {s : String} : fs.readText p = .ok s ↔
    ∃ place, fs.find p = .ok (place, .file (.text s)) := by
  unfold readText
  split <;> simp_all

theorem isFile_iff : fs.isFile p = true ↔ ∃ place c, fs.find p = .ok (place, .file c) := by
  unfold isFile
  split <;> simp_all

theorem isDirectory_iff :
    fs.isDirectory p = true ↔ ∃ place, fs.find p = .ok (place, .directory) := by
  unfold isDirectory
  split <;> simp_all

theorem Grown.readText (g : Grown tree fs fs') (wf : WellFormed fs) (h : p.LeadsTo ns)
    (ho : ¬ Inside tree ns) {s : String} : fs'.readText p = .ok s ↔ fs.readText p = .ok s := by
  rw [readText_eq_ok, readText_eq_ok]
  constructor
  · rintro ⟨place, hf⟩
    obtain ⟨rfl, -⟩ := find_leadsTo h hf
    exact ⟨_, (g.find_file wf h ho).mp hf⟩
  · rintro ⟨place, hf⟩
    obtain ⟨rfl, -⟩ := find_leadsTo h hf
    exact ⟨_, (g.find_file wf h ho).mpr hf⟩

theorem Grown.isFile (g : Grown tree fs fs') (wf : WellFormed fs) (h : p.LeadsTo ns)
    (ho : ¬ Inside tree ns) : fs'.isFile p = fs.isFile p := by
  rw [Bool.eq_iff_iff, isFile_iff, isFile_iff]
  constructor
  · rintro ⟨place, c, hf⟩
    obtain ⟨rfl, -⟩ := find_leadsTo h hf
    exact ⟨_, c, (g.find_file wf h ho).mp hf⟩
  · rintro ⟨place, c, hf⟩
    obtain ⟨rfl, -⟩ := find_leadsTo h hf
    exact ⟨_, c, (g.find_file wf h ho).mpr hf⟩

theorem Grown.isDirectory (g : Grown tree fs fs') (wf : WellFormed fs) (h : p.LeadsTo ns)
    (ho : ¬ Inside tree ns) (hp : ¬ ns <+: tree) : fs'.isDirectory p = fs.isDirectory p := by
  rw [Bool.eq_iff_iff, isDirectory_iff, isDirectory_iff]
  constructor
  · rintro ⟨place, hf⟩
    obtain ⟨rfl, -⟩ := find_leadsTo h hf
    exact ⟨_, (g.find_directory wf h ho hp).mp hf⟩
  · rintro ⟨place, hf⟩
    obtain ⟨rfl, -⟩ := find_leadsTo h hf
    exact ⟨_, (g.find_directory wf h ho hp).mpr hf⟩

theorem namesBelow?_eq_some {base : Place} {names : List String} :
    namesBelow? base place = some names ↔ place = base ++ names := by
  induction base generalizing place with
  | nil => simp [namesBelow?]
  | cons a base ih =>
    cases place with
    | nil => simp [namesBelow?]
    | cons b place =>
      by_cases hb : a = b
      · subst hb
        simp [namesBelow?, ih]
      · simp [namesBelow?, hb, Ne.symm hb]

/-- The name of an entry that is a file directly in a directory. -/
def fileIn (base : Place) (e : Place × Entry) : Option String :=
  match e.2, namesBelow? base e.1 with
  | .file _, some [name] => some name
  | _, _ => none

theorem sorted_names (names : List String) :
    (names.mergeSort fun a b => !(b < a)).Pairwise (· ≤ ·) := by
  have noLater : ∀ {a b : String}, (!decide (b < a)) = true ↔ a ≤ b := by
    intro a b
    rw [Bool.not_eq_true', decide_eq_false_iff_not, not_lt]
  have ordered : (names.mergeSort fun a b => !(b < a)).Pairwise
      fun a b => (!decide (b < a)) = true := by
    refine List.pairwise_mergeSort (fun a b c ab bc => ?_) (fun a b => ?_) _
    · exact noLater.mpr ((noLater.mp ab).trans (noLater.mp bc))
    · rw [Bool.or_eq_true, noLater, noLater]
      exact le_total a b
  exact ordered.imp noLater.mp

theorem filesIn_of_find {base : Place} (hf : fs.find p = .ok (base, .directory)) :
    fs.filesIn p = ((fs.entries.filterMap (fileIn base)).mergeSort fun a b => !(b < a)).map
      fun name => p.join ⟨name⟩ := by
  unfold filesIn
  rw [hf]
  rfl

theorem fileIn_eq_some {base : Place} {e : Place × Entry} {name : String}
    (h : fileIn base e = some name) : e.1 = base ++ [name] := by
  unfold fileIn at h
  split at h
  · rename_i hn
    obtain rfl := Option.some.inj h
    exact namesBelow?_eq_some.mp hn
  · simp at h

theorem filesIn_eq_nil (h : ∀ base, fs.find p ≠ .ok (base, .directory)) : fs.filesIn p = [] := by
  unfold filesIn
  split
  · rename_i hf
    exact absurd hf (h _)
  · rfl

theorem Grown.filesIn (g : Grown tree fs fs') (wf : WellFormed fs) (h : p.LeadsTo ns)
    (ho : ¬ tree <+: ns) (hp : ¬ ns <+: tree) : fs'.filesIn p = fs.filesIn p := by
  have inside : ¬ Inside tree ns := fun hi => ho hi.1
  by_cases hf : fs.find p = .ok (ns, .directory)
  · rw [filesIn_of_find hf, filesIn_of_find ((g.find_directory wf h inside hp).mpr hf)]
    rw [g.filterMap_entries]
    · intro place
      rfl
    · intro place entry hi
      cases hn : fileIn ns (place, entry) with
      | none => rfl
      | some name =>
        have hp : place = ns ++ [name] := fileIn_eq_some hn
        exact absurd (hp ▸ hi).parent ho
  · rw [filesIn_eq_nil, filesIn_eq_nil]
    · intro base hb
      obtain ⟨rfl, -⟩ := find_leadsTo h hb
      exact hf hb
    · intro base hb
      obtain ⟨rfl, -⟩ := find_leadsTo h hb
      exact hf ((g.find_directory wf h inside hp).mp hb)

/-! ## Normalized paths -/

theorem isAbsolute_pathOf (place : Place) : (pathOf place).isAbsolute = true :=
  isAbsolute_iff.mpr ⟨_, chars_pathOf place⟩

theorem normalizePath_of_find (h : fs.find p = .ok (place, entry)) :
    fs.normalizePath p = pathOf place := by
  unfold normalizePath canonical?
  rw [h]

theorem normalizePath_leadsTo (h : p.LeadsTo ns) : (fs.normalizePath p).LeadsTo ns := by
  cases found : fs.find p with
  | ok there =>
    obtain ⟨place, entry⟩ := there
    obtain ⟨rfl, -⟩ := find_leadsTo h found
    rw [normalizePath_of_find found]
    exact leadsTo_pathOf h.valid
  | error cause =>
    unfold normalizePath canonical?
    rw [found]
    simpa [h.isAbsolute] using h

/-- The path of a place is canonical, whether something is there or not. -/
theorem normalizePath_pathOf (valid : ValidPlace place) :
    fs.normalizePath (pathOf place) = pathOf place := by
  cases found : fs.find (pathOf place) with
  | ok there =>
    obtain ⟨q, entry⟩ := there
    obtain ⟨rfl, -⟩ := find_leadsTo (leadsTo_pathOf valid) found
    exact normalizePath_of_find found
  | error cause =>
    unfold normalizePath canonical?
    rw [found]
    exact if_pos (isAbsolute_pathOf place)

theorem isAbsolute_normalizePath (fs : FileSystem) (p : Path) :
    (fs.normalizePath p).isAbsolute = true := by
  cases found : fs.find p with
  | ok there =>
    obtain ⟨place, entry⟩ := there
    rw [normalizePath_of_find found]
    exact isAbsolute_pathOf place
  | error cause =>
    unfold normalizePath canonical?
    rw [found]
    dsimp only
    split
    · assumption
    · exact join_isAbsolute _ (isAbsolute_pathOf _)

/-- The normalized path of a directory is canonical. -/
theorem WellFormed.normalizePath_directory (wf : WellFormed fs) (ha : p.isAbsolute = true)
    (hd : fs.isDirectory (fs.normalizePath p) = true) :
    ∃ place, ValidPlace place ∧ fs.normalizePath p = pathOf place ∧
      fs.entry? place = some .directory := by
  cases found : fs.find p with
  | ok there =>
    obtain ⟨place, entry⟩ := there
    have valid := wf.valid (find_eq_ok.mp found).2
    rw [normalizePath_of_find found] at hd ⊢
    obtain ⟨q, hq⟩ := isDirectory_iff.mp hd
    obtain ⟨rfl, there⟩ := find_leadsTo (leadsTo_pathOf valid) hq
    exact ⟨q, valid, rfl, there⟩
  | error cause =>
    have same : fs.normalizePath p = p := by
      unfold normalizePath canonical?
      rw [found]
      exact if_pos ha
    rw [same, isDirectory, found] at hd
    simp at hd

end SchemaLoom.FileSystem
