import SchemaLoom.Docs.Site
import SchemaLoom.Proofs.Path.Names

/-!
# Where the page of an address is

The pieces of an address between its slashes are names below the root of the site. The file of a
page is below the root, with the extension of pages, unless the address has no name in it or ends
with two dots and another extension. Without a name the extension of the root itself is changed; of
two dots and an extension the dots are left, and they lead up.
-/

namespace SchemaLoom

namespace Path

/-! ## The last piece of a path -/

theorem getLast?_splitOn_append {front : List Char} (h : front = [] ∨ front.getLast? = some '/')
    (b : List Char) :
    (Text.splitOn '/' (front ++ b)).getLast? = (Text.splitOn '/' b).getLast? := by
  rcases h with rfl | h
  · rfl
  · obtain ⟨init, rfl⟩ := List.getLast?_eq_some_iff.mp h
    rw [List.append_assoc, List.singleton_append, Text.splitOn_append,
      List.getLast?_append_of_ne_nil _ (Text.splitOn_ne_nil b)]

variable {p : Path} {cs : List Char} {before : List Component} {s : String}

theorem eq_up_of_ofPiece? {piece : List Char} (h : Component.ofPiece? piece = some .up) :
    piece = ['.', '.'] := by
  unfold Component.ofPiece? at h
  split at h
  · cases h
  · split at h
    · assumption
    · cases h

/-- Nothing stands behind the last name exactly if it is the last piece. -/
theorem tailLength_eq_zero_iff (hp : p.chars = '/' :: cs)
    (h : p.components = .root :: before ++ [.name s]) :
    p.tailLength = 0 ↔ (Text.splitOn '/' cs).getLast? = some s.toList := by
  have name : IsName s :=
    isName_of_mem_components (isAbsolute_iff_components.mpr ⟨_, h⟩) (by simp [h])
  constructor
  · intro zero
    obtain ⟨front, rest, chars, tail, behind, -⟩ := lastName h
    obtain rfl := List.length_eq_zero_iff.mp (tail.symm.trans zero)
    obtain rfl : cs = front ++ s.toList := by simpa using hp.symm.trans chars
    rw [getLast?_splitOn_append behind, Text.splitOn_of_not_mem name.2.1]
    rfl
  · intro last
    have whole : dropVoidEnd (Text.splitOn '/' cs) = Text.splitOn '/' cs := by
      rw [dropVoidEnd_eq, List.rdropWhile_eq_self_iff]
      intro nonempty void
      rw [List.getLast?_eq_some_getLast nonempty, Option.some.injEq] at last
      rw [last, name.not_isVoid] at void
      cases void
    unfold tailLength
    rw [split_absolute hp]
    simp only [whole]
    split
    · rfl
    · simp [unsplit, Text.joinWith_splitOn, hp]

theorem extension?_of_components (h : p.components = .root :: before ++ [.name s]) :
    p.extension? = (cutName s.toList).2.map String.ofList := by
  rw [extension?, fileName?_of_components h, Option.bind_some]

theorem cutName_dots {e : List Char} (free : '.' ∉ e) :
    cutName ('.' :: '.' :: e) = (['.'], some e) :=
  cutName_extended (List.cons_ne_nil '.' []) free

/-- The stem of a name is a dot exactly if the name is two dots and an extension. -/
theorem cutName_eq_dot_iff (name : IsName s) :
    (cutName s.toList).1 = ['.'] ↔ ∃ e, s.toList = '.' :: '.' :: e ∧ '.' ∉ e := by
  constructor
  · intro dot
    cases cut : cutName s.toList with
    | mk stem extension =>
      cases extension with
      | none =>
        have same : stem = s.toList := by
          unfold cutName at cut
          simp only at cut
          split at cut
          · exact (Prod.mk.inj cut).1.symm
          · split at cut
            · exact (Prod.mk.inj cut).1.symm
            · simp at cut
        rw [cut, same] at dot
        exact absurd (toList_eq_iff.mp dot) name.2.2.1
      | some e =>
        obtain ⟨text, -, free⟩ := eq_of_cutName cut
        obtain rfl : stem = ['.'] := by simpa [cut] using dot
        exact ⟨e, text, free⟩
  · rintro ⟨e, text, free⟩
    rw [text, cutName_dots free]

end Path

namespace Docs

/-- An address without a name: all its pieces are empty or a dot. -/
def Unnamed (relative : List Char) : Prop :=
  ∀ piece ∈ Text.splitOn '/' relative, Path.isVoid piece = true

/-- The last piece of an address is two dots and an extension that is not the one of pages. -/
def EndsDotted (relative : List Char) : Prop :=
  ∃ e, (Text.splitOn '/' relative).getLast? = some ('.' :: '.' :: e) ∧ e ≠ [] ∧ '.' ∉ e ∧
    e ≠ ['m', 'd']

theorem Unnamed.not_endsDotted {relative : List Char} (unnamed : Unnamed relative) :
    ¬ EndsDotted relative := by
  rintro ⟨e, last, nonempty, -, -⟩
  have void := unnamed _ (List.mem_of_getLast? last)
  simp [Path.isVoid] at void

/-- The extension of a page is put in the place of another one. -/
def asPage (file : Path) : Path :=
  if file.extension? = some "md" then file else file.withExtension "md"

namespace Site

/-- A file is below the root of a site, at one name or more, and has the extension of pages. -/
def Holds (s : Site) (file : Path) : Prop :=
  ∃ names : List String, names ≠ [] ∧ file.components = s.root.components ++ names.map .name ∧
    file.extension? = some "md"

variable {s : Site} {url : String} {address : List Char} {file : Path}

theorem unnamed_iff {relative : List Char} : Unnamed relative ↔ Path.steps relative = [] := by
  simp [Unnamed, Path.steps, List.filterMap_eq_nil_iff, Path.ofPiece?_eq_none_iff]

theorem pageFile_eq (below : s.address? url = .ok address) (found : s.pageFile url = .ok file) :
    ['.', '.'] ∉ Text.splitOn '/' (relativePage address) ∧
    asPage (s.root.join (Path.ofChars (relativePage address))) = file := by
  unfold pageFile at found
  rw [below] at found
  simp only at found
  split at found
  · cases found
  · rename_i named
    simp only [Bool.or_eq_true, List.contains_iff_mem, not_or] at named
    exact ⟨named.2, Except.ok.inj found⟩

theorem relativePage_isAbsolute (address : List Char) :
    (Path.ofChars (relativePage address)).isAbsolute = false := by
  have first := List.head?_dropWhile_not (fun c : Char => c == '/') address
  have cut : relativePage address <+: address.dropWhile (· == '/') :=
    (List.takeWhile_prefix _).trans (List.rdropWhile_prefix _ _)
  rw [Bool.eq_false_iff]
  intro absolute
  obtain ⟨cs, text⟩ := Path.isAbsolute_iff.mp absolute
  rw [Path.chars_ofChars] at text
  obtain ⟨rest, whole⟩ := cut
  rw [← whole, text] at first
  simp at first

theorem steps_eq_names {relative : List Char} (up : ['.', '.'] ∉ Text.splitOn '/' relative) :
    ∃ names : List String, Path.steps relative = names.map .name := by
  have whole := Path.components_absolute (Path.chars_ofChars ('/' :: relative))
  have noUp : Path.Component.up ∉ (Path.ofChars ('/' :: relative)).components := by
    rw [whole, List.mem_cons]
    rintro (root | member)
    · cases root
    obtain ⟨piece, inside, reads⟩ := List.mem_filterMap.mp member
    obtain rfl := Path.eq_up_of_ofPiece? reads
    exact up inside
  obtain ⟨names, leads⟩ := Path.leadsTo_of_not_mem_up
    (Path.isAbsolute_iff.mpr ⟨relative, Path.chars_ofChars _⟩) noUp
  exact ⟨names, (List.cons.inj (whole.symm.trans leads)).2⟩

variable {cs : List Char} {before : List Path.Component} {name : String}

theorem eq_of_getLast?_splitOn (hp : file.chars = '/' :: cs)
    (h : file.components = .root :: before ++ [.name name]) {piece : List Char} {t : String}
    (last : (Text.splitOn '/' cs).getLast? = some piece)
    (reads : Path.Component.ofPiece? piece = some (.name t)) : t = name := by
  obtain ⟨init, pieces⟩ := List.getLast?_eq_some_iff.mp last
  rw [Path.components_absolute hp, List.cons_append] at h
  have ends := (List.cons.inj h).2
  rw [Path.steps, pieces, List.filterMap_append] at ends
  simpa [reads] using (List.append_inj' ends (by simp [reads])).2

theorem endsDotted_iff (hp : file.chars = '/' :: cs)
    (h : file.components = .root :: before ++ [.name name]) :
    EndsDotted cs ↔ file.extension? ≠ some "md" ∧
      (Path.cutName name.toList).1 = ['.'] ∧ file.tailLength = 0 := by
  have isName : Path.IsName name :=
    Path.isName_of_mem_components (Path.isAbsolute_iff_components.mpr ⟨_, h⟩) (by simp [h])
  rw [Path.extension?_of_components h, Path.tailLength_eq_zero_iff hp h,
    Path.cutName_eq_dot_iff isName]
  constructor
  · rintro ⟨e, last, nonempty, free, other⟩
    have reads : Path.Component.ofPiece? ('.' :: '.' :: e) =
        some (.name (String.ofList ('.' :: '.' :: e))) := by
      simp [Path.Component.ofPiece?, Path.isVoid, nonempty]
    obtain rfl := eq_of_getLast?_splitOn hp h last reads
    simp only [String.toList_ofList, Path.cutName_dots free]
    refine ⟨fun same => other ?_, ⟨e, rfl, free⟩, last⟩
    simpa using congrArg (Option.map String.toList) same
  · rintro ⟨other, ⟨e, text, free⟩, last⟩
    rw [text, Path.cutName_dots free] at other
    refine ⟨e, text ▸ last, ?_, free, ?_⟩
    · rintro rfl
      exact isName.2.2.2 (Path.toList_eq_iff.mp text)
    · rintro rfl
      exact other rfl

/-- A file whose last step is a name becomes a page there, or leads up from there. -/
theorem asPage_named (hp : file.chars = '/' :: cs)
    (h : file.components = .root :: before ++ [.name name]) :
    (EndsDotted cs ∧ (asPage file).components = .root :: before ++ [.up]) ∨
    (¬ EndsDotted cs ∧ ∃ page, (asPage file).components = .root :: before ++ [.name page] ∧
      (asPage file).extension? = some "md") := by
  have isName : Path.IsName name :=
    Path.isName_of_mem_components (Path.isAbsolute_iff_components.mpr ⟨_, h⟩) (by simp [h])
  have changed := Path.components_withExtension h (e := "md") (by decide) (by decide)
  rw [endsDotted_iff hp h]
  unfold asPage
  by_cases markdown : file.extension? = some "md"
  · rw [if_pos markdown]
    exact .inr ⟨fun dotted => dotted.1 markdown, name, h, markdown⟩
  · rw [if_neg markdown]
    by_cases dot : (Path.cutName name.toList).1 = ['.'] ∧ file.tailLength = 0
    · rw [if_pos (by simpa using dot)] at changed
      exact .inl ⟨⟨markdown, dot⟩, changed⟩
    · rw [if_neg (by simpa using dot)] at changed
      have solid : name.toList ≠ [] := fun empty => isName.1 (Path.toList_eq_iff.mp empty)
      refine .inr ⟨fun dotted => dot dotted.2, _, changed, ?_⟩
      rw [Path.extension?_of_components changed, String.toList_ofList,
        Path.cutName_extended (Path.cutName_ne_nil solid) (by decide)]
      simp

theorem dropLast_asPage (absolute : file.isAbsolute = true) :
    (asPage file).components.dropLast = file.components.dropLast := by
  obtain ⟨cs, hp⟩ := Path.isAbsolute_iff.mp absolute
  cases named : file.fileName? with
  | none => simp [asPage, Path.extension?, Path.withExtension, named]
  | some name =>
    obtain ⟨before, whole⟩ := Path.components_of_fileName? absolute named
    rcases asPage_named hp whole with ⟨-, leads⟩ | ⟨-, page, leads, -⟩
    · rw [leads, whole, List.dropLast_concat, List.dropLast_concat]
    · rw [leads, whole, List.dropLast_concat, List.dropLast_concat]

theorem not_holds_of_dropLast (absolute : s.root.isAbsolute = true)
    (around : file.components.dropLast = s.root.components.dropLast) : ¬ s.Holds file := by
  rintro ⟨names, nonempty, below, -⟩
  obtain ⟨rest, root⟩ := Path.isAbsolute_iff_components.mp absolute
  have lengths := congrArg List.length around
  simp only [below, root, List.length_dropLast, List.length_append, List.length_cons,
    List.length_map] at lengths
  exact nonempty (List.length_eq_zero_iff.mp (by omega))

/-- The file of a page is below the root exactly if the address has a name in it and does not end
with two dots and another extension. Without a name the file is the root or beside it, and with such
an end it leads to the directory around the last step. -/
theorem pageFile_holds_iff (absolute : s.root.isAbsolute = true)
    (below : s.address? url = .ok address) (found : s.pageFile url = .ok file) :
    (s.Holds file ↔
      ¬ Unnamed (relativePage address) ∧ ¬ EndsDotted (relativePage address)) ∧
    (Unnamed (relativePage address) →
      file.components.dropLast = s.root.components.dropLast) ∧
    (EndsDotted (relativePage address) →
      ∃ names : List String, file.components = s.root.components ++ names.map .name ++ [.up]) := by
  obtain ⟨up, rfl⟩ := pageFile_eq below found
  obtain ⟨names, steps⟩ := steps_eq_names up
  have relative := relativePage_isAbsolute address
  generalize relativePage address = text at *
  have joined := Path.components_join absolute relative
  rw [Path.chars_ofChars, steps] at joined
  rcases List.eq_nil_or_concat names with rfl | ⟨init, name, rfl⟩
  · have unnamed : Unnamed text := unnamed_iff.mpr steps
    have around := dropLast_asPage (Path.join_isAbsolute (Path.ofChars text) absolute)
    rw [joined, List.map_nil, List.append_nil] at around
    exact ⟨iff_of_false (not_holds_of_dropLast absolute around) (fun h => h.1 unnamed),
      fun _ => around, fun dotted => absurd dotted unnamed.not_endsDotted⟩
  · have named : ¬ Unnamed text := fun unnamed => by simp [unnamed_iff.mp unnamed] at steps
    obtain ⟨rest, root⟩ := Path.isAbsolute_iff_components.mp absolute
    obtain ⟨cs, rootText⟩ := Path.isAbsolute_iff.mp absolute
    obtain ⟨front, chars, behind, -⟩ := Path.join_chars rootText relative
    rw [Path.chars_ofChars] at chars
    have whole : (s.root.join (Path.ofChars text)).components =
        .root :: (rest ++ init.map .name) ++ [.name name] := by simp [joined, root]
    have same : EndsDotted (front ++ text) ↔ EndsDotted text := by
      simp only [EndsDotted, Path.getLast?_splitOn_append behind]
    rcases asPage_named chars whole with ⟨dotted, leads⟩ | ⟨plain, page, leads, markdown⟩
    · refine ⟨iff_of_false ?_ (fun h => h.2 (same.mp dotted)), fun h => absurd h named,
        fun _ => ⟨init, by simp [leads, root]⟩⟩
      rintro ⟨more, -, below, -⟩
      have rests : init.map .name ++ [.up] = more.map Path.Component.name := by
        simpa [leads, root] using below
      have member : Path.Component.up ∈ more.map .name := rests ▸ by simp
      simp at member
    · exact ⟨iff_of_true ⟨init ++ [page], by simp, by simp [leads, root], markdown⟩
          ⟨named, fun dotted => plain (same.mpr dotted)⟩,
        fun h => absurd h named, fun dotted => absurd (same.mpr dotted) plain⟩

/-- A site of pages without a base URL. -/
def localSite : Site := ⟨⟨"/docs"⟩, none⟩

/-- The file of `./damage/#top` is below the root, that of `.` is beside it, and that of `..x` is
the directory around it. -/
theorem pageFile_holds_iff_local :
    localSite.root.isAbsolute = true ∧
    (localSite.pageFile "./damage/#top" = .ok ⟨"/docs/./damage.md"⟩ ∧
      localSite.Holds ⟨"/docs/./damage.md"⟩) ∧
    (localSite.pageFile "." = .ok ⟨"/docs.md"⟩ ∧ ¬ localSite.Holds ⟨"/docs.md"⟩) ∧
    (localSite.pageFile "..x" = .ok ⟨"/docs/.."⟩ ∧ ¬ localSite.Holds ⟨"/docs/.."⟩) := by
  have absolute : localSite.root.isAbsolute = true := by decide
  have named : localSite.pageFile "./damage/#top" = .ok ⟨"/docs/./damage.md"⟩ := by decide +kernel
  have unnamed : localSite.pageFile "." = .ok ⟨"/docs.md"⟩ := by decide +kernel
  have dotted : localSite.pageFile "..x" = .ok ⟨"/docs/.."⟩ := by decide +kernel
  refine ⟨absolute, ⟨named, ?_⟩, ⟨unnamed, ?_⟩, dotted, ?_⟩
  · have address : localSite.address? "./damage/#top" = .ok "./damage/#top".toList := rfl
    refine (pageFile_holds_iff absolute address named).1.mpr ⟨by unfold Unnamed; decide, ?_⟩
    rintro ⟨e, last, -⟩
    have empty : (Text.splitOn '/' (relativePage "./damage/#top".toList)).getLast? = some [] := by
      decide
    cases empty.symm.trans last
  · have address : localSite.address? "." = .ok ['.'] := rfl
    refine fun holds => ((pageFile_holds_iff absolute address unnamed).1.mp holds).1 ?_
    unfold Unnamed
    decide
  · have address : localSite.address? "..x" = .ok ['.', '.', 'x'] := rfl
    exact fun holds => ((pageFile_holds_iff absolute address dotted).1.mp holds).2
      ⟨['x'], by decide, by decide, by decide, by decide⟩

end Site

end Docs

end SchemaLoom
