import SchemaLoom.Proofs.FileSystem.Writing

/-!
# What can be written

No directory and no file goes away while outputs are written. So an output that can be written once
could have been written before: the directories around it were there or were missing, and nothing
stood in their place.
-/

namespace SchemaLoom.FileSystem

open SchemaLoom.Path

variable {fs fs' fs'' : FileSystem} {start place mid q tree : Place} {p parent output : Path}
  {a b pieces : List (List Char)} {contents : Contents}

/-- Whatever is there is there in a larger file system, and is of the same kind. -/
structure Smaller (fs fs' : FileSystem) : Prop where
  directory : ∀ q, fs.entry? q = some .directory → fs'.entry? q = some .directory
  file : ∀ q c, fs.entry? q = some (.file c) → ∃ c', fs'.entry? q = some (.file c')

theorem Smaller.refl (fs : FileSystem) : Smaller fs fs := ⟨fun _ => id, fun _ c hf => ⟨c, hf⟩⟩

theorem Grown.smaller (h : Grown tree fs fs') : Smaller fs fs' :=
  ⟨fun _ => h.keepsDirectory, fun _ _ => h.keepsFile⟩

theorem Smaller.trans (h : Smaller fs fs') (h' : Smaller fs' fs'') : Smaller fs fs'' := by
  refine ⟨fun q hd => h'.directory q (h.directory q hd), fun q c hf => ?_⟩
  obtain ⟨c', hf'⟩ := h.file q c hf
  exact h'.file q c' hf'

theorem Smaller.put (h : Smaller fs fs') (hd : fs'.entry? q = some .directory)
    (free : fs.entry? q = none) : Smaller (fs.put q .directory) fs' := by
  have ne := ne_root_of_free free
  refine ⟨fun r hr => ?_, fun r c hr => ?_⟩
  · by_cases he : r = q
    · exact he ▸ hd
    · rw [entry?_put_of_ne he] at hr
      exact h.directory r hr
  · by_cases he : r = q
    · subst he
      simp [entry?_put_self ne] at hr
    · rw [entry?_put_of_ne he] at hr
      exact h.file r c hr

/-! ## The pieces of a path and of its parent -/

theorem follow_append : fs.follow start (a ++ b) = .ok place ↔
    ∃ mid, fs.follow start a = .ok mid ∧ fs.follow mid b = .ok place := by
  induction a generalizing start with
  | nil => simp [follow]
  | cons piece a ih =>
    rw [List.cons_append, follow_cons, ih]
    simp only [follow_cons, and_assoc, exists_and_left]

theorem after_void {piece : List Char} (h : isVoid piece = true) : after start piece = start := by
  simp [after, ofPiece?_eq_none_iff.mpr h]

theorem follow_void {piece : List Char} (h : isVoid piece = true) :
    fs.follow start [piece] = .ok place ↔ fs.entry? start = some .directory ∧ start = place := by
  have short : sizeInBytes piece ≤ maxNameSize := by
    unfold isVoid at h
    rcases (by simpa using h : piece = [] ∨ piece = ['.']) with rfl | rfl <;> decide
  rw [follow_cons, after_void h]
  simp [follow, short]

/-- Void pieces at the end lead nowhere. -/
theorem follow_dropVoidEnd (hd : fs.entry? place = some .directory) :
    fs.follow start (dropVoidEnd pieces) = .ok place ↔ fs.follow start pieces = .ok place := by
  induction pieces using List.reverseRecOn with
  | nil => rfl
  | append_singleton pieces piece ih =>
    cases hv : isVoid piece with
    | true =>
      rw [dropVoidEnd_eq, List.rdropWhile_concat_pos _ _ _ hv, ← dropVoidEnd_eq, ih, follow_append]
      simp only [follow_void hv]
      constructor
      · exact fun h => ⟨place, h, hd, rfl⟩
      · rintro ⟨_, h, -, rfl⟩
        exact h
    | false => rw [dropVoidEnd_eq, List.rdropWhile_concat_neg _ _ _ (by simp [hv])]

theorem dropVoidEnd_of_follow (hf : fs.follow start pieces = .ok place)
    (hn : fs.entry? place ≠ some .directory) : dropVoidEnd pieces = pieces := by
  rcases List.eq_nil_or_concat pieces with rfl | ⟨init, piece, rfl⟩
  · rfl
  · rw [List.concat_eq_append] at *
    have solid : ¬ isVoid piece = true := by
      intro void
      obtain ⟨mid, -, last⟩ := follow_append.mp hf
      obtain ⟨hd, rfl⟩ := (follow_void void).mp last
      exact hn hd
    rw [dropVoidEnd_eq, List.rdropWhile_concat_neg _ _ _ solid]

theorem dropVoidEnd_idem (pieces : List (List Char)) :
    dropVoidEnd (dropVoidEnd pieces) = dropVoidEnd pieces := by
  simp only [dropVoidEnd_eq, List.rdropWhile_idempotent isVoid pieces]

theorem joinWith_initial {separator : Char} (h : a <+: b) :
    Text.joinWith [separator] a <+: Text.joinWith [separator] b := by
  obtain ⟨rest, rfl⟩ := h
  by_cases ha : a = []
  · subst ha
    exact List.nil_prefix
  · by_cases hr : rest = []
    · subst hr
      simp
    · rw [Text.joinWith_append ha hr]
      exact List.prefix_append _ _

/-- The path ends in a component. -/
def Trim (p : Path) : Prop := p.isAbsolute = true ∧ dropVoidEnd p.split.2 = p.split.2

/-- The parent of a path that ends in a component. -/
structure ParentOf (p parent : Path) (init : List (List Char)) : Prop where
  isAbsolute : parent.isAbsolute = true
  text : parent.chars <+: p.chars
  pieces : dropVoidEnd parent.split.2 = dropVoidEnd init
  trim : Trim parent ∨ dropVoidEnd parent.split.2 = []

theorem Trim.parent? (h : Trim p) :
    ∃ parent init piece, p.parent? = some parent ∧ p.split.2 = init ++ [piece] ∧
      ParentOf p parent init := by
  obtain ⟨cs, hcs⟩ := isAbsolute_iff.mp h.1
  have hsplit := split_absolute hcs
  have hj : Text.joinWith ['/'] (Text.splitOn '/' cs) = cs := Text.joinWith_splitOn cs
  obtain ⟨init, piece, hp⟩ := (List.eq_nil_or_concat p.split.2).resolve_left (by
    rw [hsplit]
    exact Text.splitOn_ne_nil cs)
  rw [List.concat_eq_append] at hp
  have hpieces : Text.splitOn '/' cs = init ++ [piece] := by rw [← hp, hsplit]
  have free : ∀ q ∈ dropVoidEnd init, '/' ∉ q := fun q mem =>
    Text.not_mem_of_mem_splitOn (hpieces ▸ List.mem_append_left _ (mem_dropVoidEnd mem) :
      q ∈ Text.splitOn '/' cs)
  have chars := chars_ofChars ('/' :: Text.joinWith ['/'] (dropVoidEnd init))
  have psplit := split_absolute chars
  refine ⟨ofChars ('/' :: Text.joinWith ['/'] (dropVoidEnd init)), init, piece, ?_, hp,
    isAbsolute_iff.mpr ⟨_, chars⟩, ?_, ?_, ?_⟩
  · unfold Path.parent?
    rw [h.2, hp]
    cases hc : init ++ [piece] with
    | nil => simp at hc
    | cons q qs =>
      simp only
      rw [← hc, List.dropLast_concat, hsplit]
      rfl
  · rw [chars, hcs, List.cons_prefix_cons]
    refine ⟨rfl, ?_⟩
    rw [← hj, hpieces]
    exact joinWith_initial ((List.rdropWhile_prefix isVoid init).trans (List.prefix_append _ _))
  · rw [psplit]
    by_cases hn : dropVoidEnd init = []
    · rw [hn]
      rfl
    · rw [Text.splitOn_joinWith hn free, dropVoidEnd_idem]
  · by_cases hn : dropVoidEnd init = []
    · right
      rw [psplit, hn]
      rfl
    · refine .inl ⟨isAbsolute_iff.mpr ⟨_, chars⟩, ?_⟩
      rw [psplit, Text.splitOn_joinWith hn free, dropVoidEnd_idem]

/-- A parent ends in a component, or it is the root. -/
theorem trim_parent? (ha : p.isAbsolute = true) (hp : p.parent? = some parent) :
    Trim parent ∨ dropVoidEnd parent.split.2 = [] := by
  obtain ⟨cs, hcs⟩ := isAbsolute_iff.mp ha
  by_cases hs : steps cs = []
  · simp [parent?_eq_none hcs hs] at hp
  · obtain ⟨pieces, hq, free, -⟩ := parent?_eq_some hcs hs
    obtain rfl := Option.some.inj (hq.symm.trans hp)
    have chars := chars_ofChars ('/' :: Text.joinWith ['/'] (dropVoidEnd pieces))
    rw [Trim, split_absolute chars]
    by_cases none : dropVoidEnd pieces = []
    · right
      rw [none]
      rfl
    · refine .inl ⟨isAbsolute_iff.mpr ⟨_, chars⟩, ?_⟩
      rw [Text.splitOn_joinWith none fun piece mem => free piece (mem_dropVoidEnd mem),
        dropVoidEnd_idem]

/-! ## Following in a smaller file system -/

theorem follow_step {piece : List Char} (hd : fs.entry? start = some .directory)
    (short : sizeInBytes piece ≤ maxNameSize) :
    fs.follow start (piece :: pieces) = fs.follow (after start piece) pieces := by
  have hs : ¬ sizeInBytes piece > maxNameSize := by omega
  rw [follow, requireDirectory_eq_ok.mpr hd]
  simp only [hs, if_false, after]
  cases Component.ofPiece? piece with
  | none => rfl
  | some c => cases c <;> rfl

/-- What can be followed in a larger file system can be followed, or something is missing. -/
theorem Smaller.follow (h : Smaller fs fs') (hf : fs'.follow start pieces = .ok place) :
    fs.follow start pieces = .ok place ∨ fs.follow start pieces = .error .notFound := by
  induction pieces generalizing start with
  | nil => exact .inl hf
  | cons piece pieces ih =>
    obtain ⟨hd, short, rest⟩ := follow_cons.mp hf
    cases he : fs.entry? start with
    | none =>
      right
      simp [FileSystem.follow, requireDirectory, he]
    | some entry =>
      cases entry with
      | file c =>
        obtain ⟨c', hc⟩ := h.file start c he
        simp [hc] at hd
      | directory =>
        rw [follow_step he short]
        exact ih rest

theorem Smaller.locate (h : Smaller fs fs') (ha : p.isAbsolute = true)
    (hl : fs'.locate p = .ok place) :
    fs.locate p = .ok place ∨ fs.locate p = .error .notFound := by
  obtain ⟨⟨hz, hs⟩, hf⟩ := (locate_absolute ha).mp hl
  obtain ⟨cs, hcs⟩ := isAbsolute_iff.mp ha
  rcases h.follow hf with hf | hf
  · exact .inl ((locate_absolute ha).mpr ⟨⟨hz, hs⟩, hf⟩)
  · right
    unfold FileSystem.locate
    rw [if_neg (by simp [hcs]), if_neg (by simpa using hz), if_neg (by omega), if_pos ha, hf]

theorem Smaller.find_directory (h : Smaller fs fs') (ha : p.isAbsolute = true)
    (hf : fs.find p = .ok (place, .directory)) : fs'.find p = .ok (place, .directory) := by
  obtain ⟨hl, hd⟩ := find_eq_ok.mp hf
  exact find_eq_ok.mpr ⟨locate_mono ha h.directory hl, h.directory place hd⟩

theorem Smaller.find_file (h : Smaller fs fs') (ha : p.isAbsolute = true)
    (hf : fs.find p = .ok (place, .file contents)) :
    ∃ contents', fs'.find p = .ok (place, .file contents') := by
  obtain ⟨hl, he⟩ := find_eq_ok.mp hf
  obtain ⟨contents', he'⟩ := h.file place contents he
  exact ⟨contents', find_eq_ok.mpr ⟨locate_mono ha h.directory hl, he'⟩⟩

theorem follow_root (h : dropVoidEnd pieces = []) : fs.follow [] pieces = .ok [] :=
  (follow_dropVoidEnd (entry?_root fs)).mp (by rw [h]; rfl)

theorem le_foldl_size (cs : List Char) (n : Nat) :
    n ≤ cs.foldl (fun n c => n + c.utf8Size) n := by
  induction cs generalizing n with
  | nil => exact Nat.le_refl n
  | cons c cs ih => exact Nat.le_trans (Nat.le_add_right n _) (ih _)

theorem sizeInBytes_le {cs ds : List Char} (h : cs <+: ds) :
    sizeInBytes cs ≤ sizeInBytes ds := by
  obtain ⟨rest, rfl⟩ := h
  unfold sizeInBytes
  rw [List.foldl_append]
  exact le_foldl_size rest _

theorem Usable.initial {q : Path} (h : Usable p) (hp : q.chars <+: p.chars) : Usable q :=
  ⟨fun mem => h.1 (hp.subset mem), Nat.le_trans (sizeInBytes_le hp) h.2⟩

namespace ParentOf

variable {init : List (List Char)} (h : ParentOf p parent init)
include h

theorem locate_iff (usable : Usable p) (hd : fs.entry? mid = some .directory) :
    fs.locate parent = .ok mid ↔ fs.follow [] init = .ok mid := by
  rw [locate_absolute h.isAbsolute, ← follow_dropVoidEnd hd, h.pieces, follow_dropVoidEnd hd]
  exact and_iff_right (usable.initial h.text)

theorem find {piece : List Char} (ha : p.isAbsolute = true) (hp : p.split.2 = init ++ [piece])
    (hl : fs.locate p = .ok place) : ∃ mid, fs.find parent = .ok (mid, .directory) ∧
      sizeInBytes piece ≤ maxNameSize ∧ after mid piece = place := by
  obtain ⟨usable, hf⟩ := (locate_absolute ha).mp hl
  rw [hp] at hf
  obtain ⟨mid, first, last⟩ := follow_append.mp hf
  obtain ⟨hd, short, ends⟩ := follow_cons.mp last
  exact ⟨mid, find_eq_ok.mpr ⟨(h.locate_iff usable hd).mpr first, hd⟩, short, by
    simpa [FileSystem.follow] using ends⟩

theorem locate {piece : List Char} (ha : p.isAbsolute = true) (hp : p.split.2 = init ++ [piece])
    (usable : Usable p) (hf : fs.find parent = .ok (mid, .directory))
    (short : sizeInBytes piece ≤ maxNameSize) : fs.locate p = .ok (after mid piece) := by
  obtain ⟨hl, hd⟩ := find_eq_ok.mp hf
  refine (locate_absolute ha).mpr ⟨usable, ?_⟩
  rw [hp]
  exact follow_append.mpr ⟨mid, (h.locate_iff usable hd).mp hl, follow_cons.mpr ⟨hd, short, rfl⟩⟩

end ParentOf

/-- What is found at a canonical path stands in directories. -/
theorem find_above {a b : Place} {entry : Entry} (hv : ValidPlace (a ++ b)) (ne : b ≠ [])
    (hf : fs.find (pathOf (a ++ b)) = .ok (place, entry)) :
    fs.find (pathOf a) = .ok (a, .directory) := by
  have whole := leadsTo_pathOf hv
  have upper := leadsTo_pathOf hv.left
  have pieces : ∀ {c : Place}, c ≠ [] → ValidPlace c →
      (pathOf c).split.2 = c.map String.toList := by
    intro c hc valid
    rw [split_absolute (chars_pathOf c), Text.splitOn_joinWith (by simpa using hc) valid.free]
  rcases eq_or_ne a [] with rfl | top
  · have root : fs.locate (pathOf []) = .ok [] := (locate_absolute upper.isAbsolute).mpr
      ⟨⟨by decide, by decide⟩, follow_root (by decide)⟩
    exact find_eq_ok.mpr ⟨root, entry?_root fs⟩
  · obtain ⟨usable, follows⟩ := (locate_absolute whole.isAbsolute).mp (find_eq_ok.mp hf).1
    rw [pieces (by simp [top]) hv, List.map_append] at follows
    obtain ⟨mid, first, rest⟩ := follow_append.mp follows
    have initial : (pathOf a).chars <+: (pathOf (a ++ b)).chars := by
      rw [chars_pathOf, chars_pathOf, List.map_append]
      exact (List.prefix_cons_inj '/').mpr (joinWith_initial (List.prefix_append _ _))
    have located : fs.locate (pathOf a) = .ok mid := by
      rw [locate_absolute upper.isAbsolute, pieces top hv.left]
      exact ⟨usable.initial initial, first⟩
    obtain ⟨rfl, -⟩ := locate_leadsTo upper located
    obtain ⟨s, b, rfl⟩ := List.exists_cons_of_ne_nil ne
    rw [List.map_cons] at rest
    exact find_eq_ok.mpr ⟨located, (follow_cons.mp rest).1⟩

/-! ## Making directories -/

theorem ensureDirectory_of_smaller (h : Smaller fs fs') (ha : p.isAbsolute = true)
    (hf : fs'.find p = .ok (place, .directory)) (hl : fs.locate p = .ok place) :
    ∃ made, fs.ensureDirectory p = .ok made ∧ Smaller made fs' ∧
      made.find p = .ok (place, .directory) := by
  have there := (find_eq_ok.mp hf).2
  unfold ensureDirectory makeDirectory
  rw [hl]
  simp only
  cases he : fs.entry? place with
  | none =>
    have ne := ne_root_of_free he
    have grown : Grown [] fs (fs.put place .directory) :=
      Grown.refl.directory he (.inl (inside_root ne))
    refine ⟨_, rfl, h.put there he, find_eq_ok.mpr ⟨?_, entry?_put_self ne⟩⟩
    exact locate_mono ha (fun _ => grown.keepsDirectory) hl
  | some entry =>
    cases entry with
    | file c =>
      obtain ⟨c', hc⟩ := h.file place c he
      simp [hc] at there
    | directory =>
      have found : fs.find p = .ok (place, .directory) := find_eq_ok.mpr ⟨hl, he⟩
      have isDirectory : fs.isDirectory p = true := isDirectory_iff.mpr ⟨place, found⟩
      exact ⟨fs, by simp [isDirectory], h, found⟩

theorem ensureDirectory_notFound (hl : fs.locate p = .error .notFound) :
    fs.ensureDirectory p = .error .notFound := by
  have absent : fs.isDirectory p = false := by simp [isDirectory, find, hl]
  simp [ensureDirectory, makeDirectory, hl, absent]

/-- A directory that could be made later can be made now. -/
theorem ensureBelow_of_smaller {bound : Nat} (h : Smaller fs fs') (ha : p.isAbsolute = true)
    (shape : Trim p ∨ dropVoidEnd p.split.2 = []) (hf : fs'.find p = .ok (place, .directory))
    (enough : p.components.length ≤ bound) :
    ∃ made, fs.ensureBelow p (ancestors p bound) = .ok made ∧ Smaller made fs' ∧
      made.find p = .ok (place, .directory) := by
  induction bound generalizing fs p place with
  | zero =>
    rw [split_components ha] at enough
    simp at enough
  | succ bound ih =>
    obtain ⟨hl', hd'⟩ := find_eq_ok.mp hf
    obtain ⟨usable, hfollow⟩ := (locate_absolute ha).mp hl'
    rcases h.locate ha hl' with hl | missing
    · obtain ⟨made, run, rest⟩ := ensureDirectory_of_smaller h ha hf hl
      refine ⟨made, ?_, rest⟩
      rw [ancestors]
      cases p.parent? <;> simp [ensureBelow, run]
    · rcases shape with trim | root
      · obtain ⟨parent, init, piece, hp, hpieces, shape⟩ := trim.parent?
        obtain ⟨mid, hmid, short, rfl⟩ := shape.find ha hpieces hl'
        obtain ⟨-, c, hc⟩ := components_parent? ha hp
        obtain ⟨between, run, smaller, found⟩ := ih h shape.isAbsolute shape.trim hmid (by
          rw [hc, List.length_append, List.length_singleton] at enough
          omega)
        obtain ⟨made, last, rest⟩ := ensureDirectory_of_smaller smaller ha hf
          (shape.locate ha hpieces usable found short)
        refine ⟨made, ?_, rest⟩
        rw [ancestors, hp]
        simp [ensureBelow, ensureDirectory_notFound missing, run, last]
      · have : fs.locate p = .ok [] := (locate_absolute ha).mpr ⟨usable, follow_root root⟩
        simp [this] at missing

theorem ensureDirectory_found (ha : p.isAbsolute = true) (h : fs.ensureDirectory p = .ok fs') :
    ∃ place, fs'.find p = .ok (place, .directory) := by
  have grown := ensureDirectory_grown h
  rcases ensureDirectory_eq_ok h with made | ⟨rfl, there⟩
  · obtain ⟨place, hl, free, rfl⟩ := makeDirectory_eq_ok.mp made
    exact ⟨place, find_eq_ok.mpr ⟨locate_mono ha (fun _ => grown.keepsDirectory) hl,
      entry?_put_self (ne_root_of_free free)⟩⟩
  · exact isDirectory_iff.mp there

theorem makeDirectories_found (ha : p.isAbsolute = true) (h : fs.makeDirectories p = .ok fs') :
    ∃ place, fs'.find p = .ok (place, .directory) := by
  obtain ⟨cs, hcs⟩ := isAbsolute_iff.mp ha
  rw [makeDirectories, if_neg (by simp [hcs])] at h
  cases hb : ancestors p p.components.length with
  | nil =>
    rw [hb] at h
    exact ensureDirectory_found ha h
  | cons parent rest =>
    rw [hb] at h
    rcases ensureBelow_cons h with made | ⟨between, -, made⟩ <;> exact ensureDirectory_found ha made

theorem makeDirectories_of_smaller (h : Smaller fs fs') (ha : output.isAbsolute = true)
    (hp : output.parent? = some parent) (hf : fs'.find parent = .ok (place, .directory)) :
    ∃ made, fs.makeDirectories parent = .ok made := by
  have absolute : parent.isAbsolute = true := (components_parent? ha hp).1
  obtain ⟨cs, hcs⟩ := isAbsolute_iff.mp absolute
  obtain ⟨made, run, -⟩ := ensureBelow_of_smaller h absolute (trim_parent? ha hp) hf (Nat.le_refl _)
  exact ⟨made, by rw [makeDirectories, if_neg (by simp [hcs]), run]⟩

/-! ## Outputs that can be written -/

/-- The directory of an output can be made, and any text can be written to the output. -/
def Accepts (fs : FileSystem) (output : Path) : Prop :=
  ∃ files, Ready fs output files ∧
    ∀ contents, ∃ files', files.writeFile output contents = .ok files'

theorem Ready.unique {files files' : FileSystem} (h : Ready fs output files)
    (h' : Ready fs output files') : files = files' := by
  cases hp : output.parent? with
  | some parent => exact Except.ok.inj ((h.made parent hp).symm.trans (h'.made parent hp))
  | none => exact (h.rootless hp).trans (h'.rootless hp).symm

theorem Ready.makeDirectories {made : FileSystem} (ready : Ready fs output made)
    (ahead : Smaller made fs'') (h : Smaller fs' fs'') (ha : output.isAbsolute = true)
    (hp : output.parent? = some parent) : ∃ files, fs'.makeDirectories parent = .ok files := by
  have absolute : parent.isAbsolute = true := (components_parent? ha hp).1
  obtain ⟨place, found⟩ := makeDirectories_found absolute (ready.made parent hp)
  exact makeDirectories_of_smaller h ha hp (ahead.find_directory absolute found)

/-- A file that is there later can be written now. -/
theorem accepts_of_file (h : Smaller fs fs') (ha : output.isAbsolute = true)
    (hf : fs'.find output = .ok (place, .file contents)) : fs.Accepts output := by
  obtain ⟨hl, there⟩ := find_eq_ok.mp hf
  obtain ⟨usable, hfollow⟩ := (locate_absolute ha).mp hl
  have trim : Trim output := ⟨ha, dropVoidEnd_of_follow hfollow (by simp [there])⟩
  obtain ⟨parent, init, piece, hp, hpieces, shape⟩ := trim.parent?
  obtain ⟨mid, hmid, short, rfl⟩ := shape.find ha hpieces hl
  obtain ⟨files, run, smaller, found⟩ := ensureBelow_of_smaller h shape.isAbsolute shape.trim hmid
    (Nat.le_refl _)
  have nonempty : parent.chars.isEmpty = false := by
    obtain ⟨cs, hcs⟩ := isAbsolute_iff.mp shape.isAbsolute
    simp [hcs]
  refine ⟨files, ⟨fun q hq => ?_, fun hn => by simp [hp] at hn⟩, fun new => ?_⟩
  · obtain rfl := Option.some.inj (hp.symm.trans hq)
    simp [makeDirectories, nonempty, run]
  · refine ⟨_, writeFile_eq_ok.mpr ⟨_, shape.locate ha hpieces usable found short, ?_, rfl⟩⟩
    intro hd
    simp [smaller.directory _ hd] at there

theorem find_writeFile (ha : p.isAbsolute = true) (h : fs.writeFile p contents = .ok fs') :
    ∃ place, fs.locate p = .ok place ∧ fs'.find p = .ok (place, .file contents) := by
  have grown := writeFile_grown h
  obtain ⟨place, hl, free, rfl⟩ := writeFile_eq_ok.mp h
  have ne := ne_root_of_not_directory free
  refine ⟨place, hl, find_eq_ok.mpr ⟨?_, entry?_put_self ne⟩⟩
  exact locate_mono ha (fun _ => grown.keepsDirectory) hl

theorem Accepts.of_smaller (h : fs'.Accepts output) (ha : output.isAbsolute = true)
    (smaller : Smaller fs fs') : fs.Accepts output := by
  obtain ⟨files, ready, write⟩ := h
  obtain ⟨files', written⟩ := write (.text "")
  obtain ⟨place, -, found⟩ := find_writeFile ha written
  exact accepts_of_file
    (smaller.trans (ready.grown.trans (writeFile_grown written)).smaller) ha found

/-! ## Files stay while directories are made -/

theorem ensureDirectory_file (h : fs.ensureDirectory p = .ok fs') :
    fs'.entry? q = some (.file contents) ↔ fs.entry? q = some (.file contents) := by
  rcases ensureDirectory_eq_ok h with made | ⟨rfl, -⟩
  · obtain ⟨place, -, free, rfl⟩ := makeDirectory_eq_ok.mp made
    by_cases same : q = place
    · subst same
      simp [entry?_put_self (ne_root_of_free free), free]
    · rw [entry?_put_of_ne same]
  · rfl

theorem ensureBelow_file {ancestors : List Path} (h : fs.ensureBelow p ancestors = .ok fs') :
    fs'.entry? q = some (.file contents) ↔ fs.entry? q = some (.file contents) := by
  induction ancestors generalizing fs fs' p with
  | nil => exact ensureDirectory_file h
  | cons parent rest ih =>
    rcases ensureBelow_cons h with made | ⟨between, below, made⟩
    · exact ensureDirectory_file made
    · exact (ensureDirectory_file made).trans (ih below)

theorem makeDirectories_file (h : fs.makeDirectories p = .ok fs') :
    fs'.entry? q = some (.file contents) ↔ fs.entry? q = some (.file contents) := by
  unfold makeDirectories at h
  split at h
  · rw [Except.ok.inj h]
  · exact ensureBelow_file h

theorem Ready.file (h : Ready fs output fs') :
    fs'.entry? q = some (.file contents) ↔ fs.entry? q = some (.file contents) := by
  cases hp : output.parent? with
  | none => rw [h.rootless hp]
  | some parent => exact makeDirectories_file (h.made parent hp)

end SchemaLoom.FileSystem
