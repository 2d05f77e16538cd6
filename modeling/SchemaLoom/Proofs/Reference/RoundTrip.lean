import SchemaLoom.Proofs.Path.Names
import SchemaLoom.Proofs.Reference.Integrity
import SchemaLoom.Session.Imports

/-!
# References that read back

The reference to a template is made of its directory and its stem. It reads back exactly when these
have only characters that a token may have, no backslash that is turned into a slash, and when the
stem is a name that is no template itself. It then finds a template with the same output.
-/

namespace SchemaLoom

open SchemaLoom.Path FileSystem Reference
open SchemaLoom.Path.LeadsTo (names_inj)

namespace Layout

variable {l : Layout} {S T D : Place} {file : Path} {name : String}

/-! ## The outputs of two templates -/

/-- The last component of the output of a template. -/
def EndsOutput (stem : List Char) (c : Component) : Prop :=
  c = .up ∧ stem = ['.'] ∨ c = .name (String.ofList (stem ++ '.' :: outputExtension.toList))

theorem EndsOutput.unique {stem stem' : List Char} {c : Component} (h : EndsOutput stem c)
    (h' : EndsOutput stem' c) : stem = stem' := by
  rcases h with ⟨rfl, rfl⟩ | rfl <;> rcases h' with ⟨up, rfl⟩ | eq
  · rfl
  · simp at eq
  · simp at up
  · have text := congrArg String.toList (Component.name.inj eq)
    rw [String.toList_ofList, String.toList_ofList] at text
    exact List.append_cancel_right text

theorem EndsOutput.eq_name {stem : List Char} {c : Component} (h : EndsOutput stem c)
    (solid : stem ≠ ['.']) :
    c = .name (String.ofList (stem ++ '.' :: outputExtension.toList)) := by
  rcases h with ⟨-, dot⟩ | name
  · exact absurd dot solid
  · exact name

theorem endsOutput {mirrored : Path} {before : List Component} {s : String}
    (h : mirrored.components = .root :: before ++ [.name s]) :
    ∃ c, (mirrored.withExtension outputExtension).components = .root :: before ++ [c] ∧
      EndsOutput (cutName s.toList).1 c := by
  have whole := components_withExtension (e := outputExtension) h (by decide) (by decide)
  refine ⟨_, whole, ?_⟩
  split
  · rename_i dot
    rw [Bool.and_eq_true, decide_eq_true_eq] at dot
    exact .inl ⟨rfl, dot.1⟩
  · exact .inr rfl

theorem endsOutput_leadsTo {mirrored : Path} {a : Place} {s : String}
    (h : mirrored.LeadsTo (a ++ [s])) :
    ∃ c, (mirrored.withExtension outputExtension).components = .root :: a.map .name ++ [c] ∧
      EndsOutput (cutName s.toList).1 c :=
  endsOutput (by simpa [LeadsTo] using h)

/-- The output of a template is in the directory below the output root in which the template is
below the source root, however the output root is written. -/
theorem components_outputFor (source : l.source.LeadsTo S)
    (absolute : l.output.isAbsolute = true) (inside : file.LeadsTo (S ++ D ++ [name])) :
    ∃ c, (l.outputFor file).components = l.output.components ++ D.map .name ++ [c] ∧
      EndsOutput (cutName name.toList).1 c := by
  have below : file.components = l.source.components ++ (D ++ [name]).map .name := by
    rw [inside, source]
    simp
  obtain ⟨relative, -, isRelative, steps, eq⟩ := outputFor_below source.isAbsolute below
  obtain ⟨rest, output⟩ := isAbsolute_iff_components.mp absolute
  rw [eq, output, List.cons_append]
  apply endsOutput
  rw [components_join absolute isRelative, output, steps]
  simp

section

variable (source : l.source.LeadsTo S) (output : l.output.LeadsTo T)
include source output

theorem outputFor_inside (inside : file.LeadsTo (S ++ D ++ [name])) :
    ∃ c, (l.outputFor file).components = .root :: (T ++ D).map .name ++ [c] ∧
      EndsOutput (cutName name.toList).1 c := by
  obtain ⟨c, whole, ends⟩ := components_outputFor source output.isAbsolute inside
  refine ⟨c, ?_, ends⟩
  rw [whole, output, List.map_append, List.cons_append]

/-- The output of a template tells its directory and its stem. -/
theorem place_of_outputFor {found : Path} {B : Place} {name' : String}
    (inside : file.LeadsTo (S ++ D ++ [name])) (inside' : found.LeadsTo (S ++ B ++ [name']))
    (same : (l.outputFor found).same (l.outputFor file) = true) :
    B = D ∧ (cutName name'.toList).1 = (cutName name.toList).1 := by
  obtain ⟨c, eq, ends⟩ := outputFor_inside source output inside
  obtain ⟨c', eq', ends'⟩ := outputFor_inside source output inside'
  rw [same_iff, eq, eq'] at same
  obtain ⟨front, last⟩ := List.append_inj' same rfl
  obtain rfl := List.singleton_inj.mp last
  exact ⟨List.append_cancel_left (names_inj (List.cons.inj front).2), ends'.unique ends⟩

theorem outputFor_outside {a : Place} (at_ : file.LeadsTo (a ++ [name]))
    (outside : ¬ S <+: a ++ [name]) :
    ∃ c, (l.outputFor file).components = .root :: T.map .name ++ [c] ∧
      EndsOutput (cutName name.toList).1 c := by
  have apart : file.startsWith l.source = false := by
    rw [Bool.eq_false_iff]
    exact fun begins => outside ((at_.startsWith_iff source).mp begins)
  have eq : l.outputFor file = (l.output.join ⟨name⟩).withExtension outputExtension := by
    simp [outputFor, sourceRelative?, below?, apart, at_.fileName?]
  rw [eq]
  exact endsOutput_leadsTo (output.join_name at_.valid.last)

theorem root_of_outputFor {found : Path} {a : Place} {name' : String}
    (inside : file.LeadsTo (S ++ D ++ [name])) (at_ : found.LeadsTo (a ++ [name']))
    (outside : ¬ S <+: a ++ [name'])
    (same : (l.outputFor found).same (l.outputFor file) = true) :
    D = [] ∧ (cutName name'.toList).1 = (cutName name.toList).1 := by
  obtain ⟨c, eq, ends⟩ := outputFor_inside source output inside
  obtain ⟨c', eq', ends'⟩ := outputFor_outside source output at_ outside
  rw [same_iff, eq, eq'] at same
  obtain ⟨front, last⟩ := List.append_inj' same rfl
  obtain rfl := List.singleton_inj.mp last
  have places := names_inj (List.cons.inj front).2
  exact ⟨by simpa using places, ends'.unique ends⟩

/-- The root itself would be written no deeper than the output root. -/
theorem length_outputFor_root (root : file.LeadsTo S) :
    (l.outputFor file).components.length ≤ T.length + 1 := by
  have here : file.components = l.source.components ++ [] := by rw [root, source, List.append_nil]
  obtain ⟨relative, -, isRelative, steps, eq⟩ := outputFor_below source.isAbsolute here
  have mirrored : (l.output.join relative).LeadsTo T := by
    unfold LeadsTo
    rw [components_join output.isAbsolute isRelative, output, steps, List.append_nil]
  rw [eq]
  rcases List.eq_nil_or_concat T with rfl | ⟨T, t, rfl⟩
  · have none : (l.output.join relative).fileName? = none := by
      rw [fileName?, mirrored]
      rfl
    unfold withExtension
    rw [none, mirrored]
    exact Nat.le_refl _
  · rw [List.concat_eq_append] at *
    obtain ⟨c, whole, -⟩ := endsOutput_leadsTo mirrored
    rw [whole]
    simp

theorem outputFor_root_ne {found : Path} (inside : file.LeadsTo (S ++ D ++ [name]))
    (root : found.LeadsTo S) : (l.outputFor found).same (l.outputFor file) ≠ true := by
  intro same
  have short := length_outputFor_root source output root
  obtain ⟨c, eq, -⟩ := outputFor_inside source output inside
  rw [same_iff.mp same, eq] at short
  simp only [List.length_append, List.length_cons, List.length_map, List.length_nil] at short
  omega

end

theorem outputReference_congr {found importer : Path}
    (same : (l.outputFor found).same (l.outputFor file) = true) :
    l.outputReference importer found = l.outputReference importer file := by
  unfold outputReference relativeTo
  rw [same_iff.mp same]

/-- Nothing but the output root and the names brings a backslash into an output's path. -/
theorem backslash_not_mem_of_names (source : l.source = pathOf S) (valid : ValidPlace (S ++ D))
    (plain : '\\' ∉ l.output.chars) (solid : ∀ d ∈ D, '\\' ∉ d.toList) :
    '\\' ∉ (l.outputFor (pathOf (S ++ D))).chars := by
  intro mem
  unfold outputFor sourceRelative? at mem
  rw [source, below?_pathOf valid] at mem
  rcases mem_withExtension mem with mem | dot | mem
  · rcases mem_join mem with mem | slash | mem
    · exact plain mem
    · exact absurd slash (by decide)
    · rw [chars_ofChars] at mem
      rcases Text.mem_joinWith mem with slash | ⟨piece, found, mem⟩
      · exact absurd slash (by decide)
      · obtain ⟨d, hd, rfl⟩ := List.mem_map.mp found
        exact solid d hd mem
  · exact absurd dot (by decide)
  · exact absurd mem (by decide)

/-- The templates that a path of names may name. -/
theorem candidates_names {stem : String} (source : l.source = pathOf S)
    (valid : ValidPlace (S ++ (D ++ [stem]))) (plain : (⟨stem⟩ : Path).isTemplate = false) :
    l.candidates (ofComponents ((D ++ [stem]).map .name)) =
      templateExtensions.map fun e => pathOf (S ++ D ++ [nameWith stem e]) := by
  have base := normalize_join_names valid
  rw [← List.append_assoc] at base valid
  have begins : (pathOf (S ++ D ++ [stem])).startsWith (pathOf S) = true := by
    rw [(leadsTo_pathOf valid).startsWith_iff (leadsTo_pathOf valid.left.left), List.append_assoc]
    exact List.prefix_append _ _
  have plainBase : (pathOf (S ++ D ++ [stem])).isTemplate = false := by
    rw [isTemplate_congr (q := ⟨stem⟩), plain]
    rw [fileName?_name valid.last, (leadsTo_pathOf valid).fileName?]
  unfold candidates
  simp only [source, base, begins, plainBase, Bool.not_true, Bool.false_eq_true, if_false]
  apply List.map_congr_left
  intro e _
  exact pathOf_extended (S ++ D) stem _

end Layout

namespace Reference

variable {l : Layout} {S D : Place} {name stem : String} {ref : Reference}

theorem parse?_eq_some_iff {text : String} :
    parse? text = some ref ↔ ref.IsToken ∧ ∃ dollar, text.toList = token dollar ref := by
  unfold parse?
  constructor
  · intro h
    split at h
    · rename_i found read
      obtain rfl := Option.some.inj h
      obtain ⟨isToken, dollar, eq⟩ := readToken_eq_some_iff.mp read
      exact ⟨isToken, dollar, by simpa using eq⟩
    · simp at h
  · rintro ⟨isToken, dollar, eq⟩
    have read := readToken_token isToken dollar []
    rw [List.append_nil] at read
    rw [eq, read]

/-- The reference of a template in a directory, which backslashes do not survive. -/
def naming (D : Place) (stem : String) : Reference :=
  ⟨(ofComponents (D.map .name)).clean.toList, stem.toList⟩

theorem ofFile?_below (source : l.source = pathOf S) (h : ValidPlace (S ++ D ++ [name])) :
    ofFile? l (pathOf (S ++ D ++ [name])) =
      some (naming D (String.ofList (cutName name.toList).1)) := by
  rw [List.append_assoc] at h ⊢
  unfold ofFile? Layout.sourceRelative?
  rw [source, below?_pathOf h, ← ofComponents_names h.right]
  simp only [stem?, fileName?_names h.right, parent?_names h.right, Option.map_some]
  split
  · rename_i empty
    have chars : (ofComponents (D.map .name)).chars = [] := by simpa using empty
    simp [naming, clean, chars]
  · rfl

/-! ## The text of a directory -/

theorem mem_names {c : Char} (h : ValidPlace D) (mem : c ∈ (ofComponents (D.map .name)).chars) :
    c = '/' ∨ ∃ d ∈ D, c ∈ d.toList := by
  rw [ofComponents_names h, chars_ofChars] at mem
  rcases Text.mem_joinWith mem with slash | ⟨piece, found, inside⟩
  · exact .inl slash
  · obtain ⟨d, hd, rfl⟩ := List.mem_map.mp found
    exact .inr ⟨d, hd, inside⟩

theorem mem_names_of_mem {c : Char} {d : String} (h : ValidPlace D) (hd : d ∈ D)
    (mem : c ∈ d.toList) : c ∈ (ofComponents (D.map .name)).chars := by
  rw [ofComponents_names h, chars_ofChars]
  exact Text.mem_joinWith_of_mem (List.mem_map_of_mem hd) mem

/-! ## Reading back -/

/-- A directory and a stem that survive in a reference. -/
structure Readable (D : Place) (stem : String) : Prop where
  directories : ∀ d ∈ D, ∀ c ∈ d.toList, isNameSpaceChar c = true ∧ c ≠ '\\'
  characters : ∀ c ∈ stem.toList, isPathChar c = true
  here : stem ≠ "."
  up : stem ≠ ".."
  plain : (⟨stem⟩ : Path).isTemplate = false

instance (D : Place) (stem : String) : Decidable (Readable D stem) :=
  decidable_of_iff
    ((∀ d ∈ D, d.toList.all fun c => isNameSpaceChar c && c != '\\') ∧
      stem.toList.all isPathChar = true ∧ stem ≠ "." ∧ stem ≠ ".." ∧
      (⟨stem⟩ : Path).isTemplate = false)
    ⟨fun h => ⟨by simpa using h.1, List.all_eq_true.mp h.2.1, h.2.2.1, h.2.2.2.1, h.2.2.2.2⟩,
      fun h => ⟨by simpa using h.directories, List.all_eq_true.mpr h.characters, h.here, h.up,
        h.plain⟩⟩

section

variable (readable : Readable D stem) (valid : ValidPlace D)
include readable valid

theorem naming_eq : naming D stem = ⟨(ofComponents (D.map .name)).chars, stem.toList⟩ := by
  have plain : '\\' ∉ (ofComponents (D.map .name)).chars := by
    intro mem
    rcases mem_names valid mem with slash | ⟨d, hd, inside⟩
    · exact absurd slash (by decide)
    · exact (readable.directories d hd _ inside).2 rfl
  rw [naming, clean_eq plain]
  rfl

theorem naming_isToken (nonempty : stem ≠ "") : (naming D stem).IsToken := by
  rw [naming_eq readable valid]
  refine ⟨?_, readable.characters, fun empty => nonempty (toList_eq_iff.mp empty)⟩
  intro c mem
  rcases mem_names valid mem with rfl | ⟨d, hd, inside⟩
  · decide
  · exact (readable.directories d hd c inside).1

theorem relativePath_naming :
    relativePath (naming D stem).nameSpace (naming D stem).path =
      ofComponents ((D ++ [stem]).map .name) := by
  have text : ofChars stem.toList = ⟨stem⟩ := ofChars_chars ⟨stem⟩
  rw [naming_eq readable valid, relativePath, ofChars_chars, List.map_append, List.map_singleton,
    ofComponents_concat, text]
  rfl

end

/-! ## Where a directory ends -/

theorem not_mem_clean (p : Path) : '\\' ∉ p.clean.toList := by
  intro mem
  rw [clean, String.toList_ofList] at mem
  obtain ⟨c, -, changed⟩ := List.mem_map.mp mem
  split at changed
  · exact absurd changed (by decide)
  · contradiction

/-- A path and its cleaned text are cut at one place, before a slash here and a colon there. -/
theorem cut_once {nameSpace path stem : List Char} {p : Path}
    (cleaned : nameSpace ++ ':' :: path = p.clean.toList ++ ':' :: stem)
    (text : nameSpace ++ '/' :: path = p.chars ++ '/' :: stem) :
    nameSpace = p.chars ∧ path = stem ∧ '\\' ∉ p.chars := by
  have whole : p.clean.toList = p.chars.map fun c => if c = '\\' then '/' else c := by
    rw [clean, String.toList_ofList]
  have same : nameSpace = p.chars := by
    rcases List.append_eq_append_iff.mp text with ⟨t, hp, ht⟩ | ⟨t, rfl, ht⟩
    · cases t with
      | nil => rw [hp, List.append_nil]
      | cons c t =>
        obtain ⟨rfl, -⟩ := List.cons.inj ht
        rw [whole, hp, List.map_append, List.append_assoc] at cleaned
        have behind := List.append_inj_right cleaned (by simp)
        exact absurd (List.cons.inj behind).1 (by decide)
    · cases t with
      | nil => exact List.append_nil _
      | cons c t =>
        obtain ⟨rfl, -⟩ := List.cons.inj ht
        rw [whole, List.append_assoc] at cleaned
        have behind := List.append_inj_right cleaned (by simp)
        exact absurd (List.cons.inj behind).1 (by decide)
  subst same
  obtain rfl : path = stem := by simpa using text
  have unchanged : p.chars = p.clean.toList := List.append_cancel_right cleaned
  refine ⟨rfl, rfl, ?_⟩
  rw [unchanged]
  exact not_mem_clean p

theorem join_nil (p : Path) : (ofChars []).join p = p := by
  unfold Path.join
  split
  · rfl
  · simp

theorem join_cases (p q : Path) : (p.join q).chars = p.chars ++ '/' :: q.chars ∨
    (p.join q).chars.length ≤ p.chars.length + q.chars.length := by
  unfold Path.join
  split
  · exact .inr (Nat.le_add_left _ _)
  · split
    · exact .inr (by rw [chars_ofChars, List.length_append])
    · exact .inl (chars_ofChars _)

theorem joinWith_names (h : ValidPlace D) (nonempty : D ≠ []) :
    Text.joinWith ['/'] ((D ++ [stem]).map String.toList) =
      (ofComponents (D.map .name)).chars ++ '/' :: stem.toList := by
  rw [List.map_append, Text.joinWith_append (by simpa using nonempty) (by simp),
    ofComponents_names h, chars_ofChars]
  rfl

section

variable (isToken : ref.IsToken) (inner : ref.inner = (naming D stem).inner)
include isToken inner

/-- In the root the reference is made of the stem alone, and is read so. -/
theorem eq_naming_of_root (root : D = []) : ref = naming D stem ∧ ref.nameSpace = [] := by
  subst root
  have void : (naming [] stem).nameSpace = [] := rfl
  rw [Reference.inner, Reference.inner, void, List.nil_append] at inner
  cases first : ref.nameSpace with
  | nil =>
    rw [first] at inner
    have path : ref.path = stem.toList := (List.cons.inj inner).2
    refine ⟨?_, rfl⟩
    cases ref
    simp only at first path
    rw [first, path]
    rfl
  | cons c nameSpace =>
    rw [first] at inner
    obtain ⟨rfl, -⟩ := List.cons.inj inner
    have colon := isToken.nameSpace ':' (by simp [first])
    exact absurd colon (by decide)

/-- However the text is cut, the path that is read is no longer than the one that was written. -/
theorem length_relativePath_le (valid : ValidPlace D) :
    (relativePath ref.nameSpace ref.path).chars.length ≤
      (Text.joinWith ['/'] ((D ++ [stem]).map String.toList)).length := by
  by_cases root : D = []
  · obtain ⟨rfl, void⟩ := eq_naming_of_root isToken inner root
    subst root
    rw [relativePath, void, join_nil, chars_ofChars]
    exact Nat.le_refl _
  · have size := congrArg List.length inner
    have cleaned : (ofComponents (D.map .name)).clean.toList.length =
        (ofComponents (D.map .name)).chars.length := by
      rw [clean, String.toList_ofList, List.length_map]
    rw [joinWith_names valid root]
    simp only [Reference.inner, naming, List.length_append, List.length_cons] at size ⊢
    rcases join_cases (ofChars ref.nameSpace) (ofChars ref.path) with eq | short
    · rw [relativePath, eq, chars_ofChars, chars_ofChars, List.length_append, List.length_cons]
      omega
    · rw [chars_ofChars, chars_ofChars] at short
      rw [relativePath]
      omega

theorem not_reached (valid : ValidPlace D) (e : String) :
    ¬ ((D ++ [nameWith stem e]).map Component.name).Sublist
      (steps (relativePath ref.nameSpace ref.path).chars) := by
  intro reached
  have long := @Text.length_joinWith_le_of_sublist '/' _ _ (pieces_sublist reached) (by simp)
  have short := length_relativePath_le isToken inner valid
  rw [Text.joinWith_splitOn, List.map_append, List.map_singleton, Text.length_joinWith_concat,
    length_nameWith] at long
  rw [List.map_append, List.map_singleton, Text.length_joinWith_concat] at short
  omega

theorem relativePath_of_root (root : D = []) (name : IsName stem) :
    relativePath ref.nameSpace ref.path = ofComponents [.name stem] := by
  obtain ⟨rfl, void⟩ := eq_naming_of_root isToken inner root
  rw [relativePath, void, join_nil, ofComponents_name name]
  exact ofChars_chars ⟨stem⟩

/-- Where what is read leads to the directory and the stem, they were written unchanged. -/
theorem of_reached (valid : ValidPlace (D ++ [stem]))
    (reached : ((D ++ [stem]).map Component.name).Sublist
      (steps (relativePath ref.nameSpace ref.path).chars)) :
    (∀ d ∈ D, ∀ c ∈ d.toList, isNameSpaceChar c = true ∧ c ≠ '\\') ∧
      ∀ c ∈ stem.toList, isPathChar c = true := by
  by_cases root : D = []
  · obtain ⟨rfl, -⟩ := eq_naming_of_root isToken inner root
    subst root
    exact ⟨by simp, isToken.path⟩
  · have pieces : (D ++ [stem]).map String.toList =
        Text.splitOn '/' (relativePath ref.nameSpace ref.path).chars := by
      apply @Text.eq_of_sublist_of_length_le '/' _ _ (pieces_sublist reached) (by simp)
      rw [Text.joinWith_splitOn]
      exact length_relativePath_le isToken inner valid.left
    have text : (relativePath ref.nameSpace ref.path).chars =
        (ofComponents (D.map .name)).chars ++ '/' :: stem.toList := by
      rw [← joinWith_names valid.left root, pieces, Text.joinWith_splitOn]
    have size := congrArg List.length inner
    have cleaned : (ofComponents (D.map .name)).clean.toList.length =
        (ofComponents (D.map .name)).chars.length := by
      rw [clean, String.toList_ofList, List.length_map]
    rcases join_cases (ofChars ref.nameSpace) (ofChars ref.path) with eq | short
    · rw [chars_ofChars, chars_ofChars] at eq
      obtain ⟨front, path, plain⟩ := cut_once inner (eq.symm.trans text)
      constructor
      · intro d hd c mem
        have found := mem_names_of_mem valid.left hd mem
        refine ⟨isToken.nameSpace c (front ▸ found), ?_⟩
        rintro rfl
        exact plain found
      · intro c mem
        apply isToken.path
        rw [path]
        exact mem
    · exfalso
      have whole := congrArg List.length text
      simp only [Reference.inner, naming, relativePath, List.length_append, List.length_cons,
        chars_ofChars] at size whole short
      omega

end

end Reference

theorem isName_stem {stem e : String} (name : IsName (nameWith stem e)) (nonempty : stem ≠ "")
    (here : stem ≠ ".") (up : stem ≠ "..") : IsName stem := by
  refine ⟨nonempty, fun slash => name.2.1 ?_, here, up⟩
  rw [nameWith, String.toList_ofList]
  exact List.mem_append_left _ slash

namespace Sources

/-- A text is read as a reference, and finds a template with the same output as the file. -/
def ReadsBack (s : Sources) (text : String) (file : Path) : Prop :=
  ∃ ref found, Reference.parse? text = some ref ∧
    s.files.findSource? s.layout (relativePath ref.nameSpace ref.path) = some found ∧
    (s.layout.outputFor found).same (s.layout.outputFor file) = true

/-- The resolver of a document. -/
def resolver (s : Sources) (importer : Path) : Resolver := ⟨s.layout, s.files, importer⟩

variable {s : Sources} {S T D : Place} {stem e : String}

theorem referenceTo_eq_ok {file : Path} {ref : Reference} {text : String}
    (h : ofFile? s.layout file = some ref) (eq : String.ofList ref.text = text) :
    s.referenceTo file = .ok text := by
  rw [referenceTo, h, ← eq]

section

variable (source : s.layout.source = pathOf S) (known : e ∈ templateExtensions)
  (nonempty : stem ≠ "") (valid : ValidPlace (S ++ D ++ [nameWith stem e]))
include source known nonempty valid

theorem referenceTo_below : s.referenceTo (pathOf (S ++ D ++ [nameWith stem e])) =
    .ok (String.ofList (naming D stem).text) := by
  have found := ofFile?_below source valid
  rw [cutName_nameWith known nonempty, String.ofList_toList] at found
  exact referenceTo_eq_ok found rfl

/-- A readable reference finds a template with the same output. -/
theorem findSource?_naming (output : s.layout.output.LeadsTo T)
    (isFile : s.files.isFile (pathOf (S ++ D ++ [nameWith stem e])) = true)
    (readable : Readable D stem) :
    ∃ found, s.files.findSource? s.layout
        (relativePath (naming D stem).nameSpace (naming D stem).path) = some found ∧
      (s.layout.outputFor found).same
        (s.layout.outputFor (pathOf (S ++ D ++ [nameWith stem e]))) = true := by
  have name := isName_stem valid.last nonempty readable.here readable.up
  have place : ValidPlace (S ++ (D ++ [stem])) :=
    valid.left.left.append (valid.left.right.append (.singleton name))
  have solid : stem.toList ≠ ['.'] := fun dot => readable.here (toList_eq_iff.mp dot)
  have root : s.layout.source.LeadsTo S := source ▸ leadsTo_pathOf valid.left.left
  rw [relativePath_naming readable valid.left.right, findSource?,
    Layout.candidates_names source place readable.plain]
  have some_ : ((templateExtensions.map fun e => pathOf (S ++ D ++ [nameWith stem e])).find?
      s.files.isFile).isSome = true := by
    rw [List.find?_isSome]
    exact ⟨_, List.mem_map_of_mem known, isFile⟩
  obtain ⟨found, finds⟩ := Option.isSome_iff_exists.mp some_
  refine ⟨found, finds, ?_⟩
  obtain ⟨e', known', rfl⟩ := List.mem_map.mp (List.mem_of_find?_eq_some finds)
  have valid' : ValidPlace (S ++ D ++ [nameWith stem e']) :=
    valid.left.append (.singleton (isName_nameWith known' name.2.1))
  obtain ⟨c, eq, ends⟩ := Layout.outputFor_inside root output (leadsTo_pathOf valid)
  obtain ⟨c', eq', ends'⟩ := Layout.outputFor_inside root output (leadsTo_pathOf valid')
  rw [cutName_nameWith known nonempty] at ends
  rw [cutName_nameWith known' nonempty] at ends'
  rw [same_iff, eq, eq', ends.eq_name solid, ends'.eq_name solid]

/-- A reference that reads back finds a template beside the file with the same stem. -/
theorem reaches_stem (below : S ≠ []) (output : s.layout.output.LeadsTo T) {ref : Reference}
    (isToken : ref.IsToken) (inner : ref.inner = (naming D stem).inner) {found : Path}
    (finds : s.files.findSource? s.layout (relativePath ref.nameSpace ref.path) = some found)
    (same : (s.layout.outputFor found).same
      (s.layout.outputFor (pathOf (S ++ D ++ [nameWith stem e]))) = true) :
    ValidPlace (S ++ D ++ [stem]) ∧ (pathOf (S ++ D ++ [stem])).isTemplate = false ∧
      ((D ++ [stem]).map Component.name).Sublist
        (steps (relativePath ref.nameSpace ref.path).chars) := by
  have rootValid := valid.left.left
  have root : s.layout.source.LeadsTo S := source ▸ leadsTo_pathOf rootValid
  obtain ⟨B, hv, base, forms⟩ :=
    Layout.mem_candidates root below (List.mem_of_find?_eq_some finds)
  have reached := sublist_of_normalize_join root hv base
  have file := leadsTo_pathOf valid
  have cut := cutName_nameWith known nonempty
  rcases forms with ⟨template, rfl⟩ | ⟨plain, e', known', a, x, last, rfl⟩
  · exfalso
    rcases List.eq_nil_or_concat B with rfl | ⟨B, b, rfl⟩
    · rw [List.append_nil] at same hv
      exact Layout.outputFor_root_ne root output file (leadsTo_pathOf hv) same
    · rw [List.concat_eq_append] at *
      rw [← List.append_assoc] at hv template same
      have found := leadsTo_pathOf hv
      obtain ⟨e', known', stem', nonempty', rfl⟩ := (isTemplate_iff found.fileName?).mp template
      obtain ⟨rfl, stems⟩ := Layout.place_of_outputFor root output file found same
      rw [cut, cutName_nameWith known' nonempty'] at stems
      obtain rfl : stem' = stem := String.toList_inj.mp stems
      exact not_reached isToken inner valid.left.right e' reached
  · have beside : ValidPlace (a ++ [x]) := last ▸ hv
    have extended : ValidPlace (a ++ [nameWith x e']) :=
      beside.left.append (.singleton (isName_nameWith known' beside.last.2.1))
    have found := leadsTo_pathOf extended
    rcases List.eq_nil_or_concat B with rfl | ⟨B, b, rfl⟩
    · exfalso
      rw [List.append_nil] at last hv base
      have outside : ¬ S <+: a ++ [nameWith x e'] := by
        intro inside
        rw [last] at inside
        have names := (List.append_inj' (inside.eq_of_length (by simp)) rfl).2
        have sizes := congrArg (fun t : String => t.toList.length) (List.singleton_inj.mp names)
        simp only [length_nameWith] at sizes
        omega
      obtain ⟨rootDirectory, stems⟩ := Layout.root_of_outputFor root output file found outside same
      rw [cut, cutName_nameWith known' beside.last.1] at stems
      obtain rfl : x = stem := String.toList_inj.mp stems
      -- The stem alone is a name, and leads below the root.
      have single : ValidPlace (S ++ [x]) := hv.append (.singleton beside.last)
      rw [source, relativePath_of_root isToken inner rootDirectory beside.last] at base
      have place := pathOf_inj single hv ((normalize_join_names single).symm.trans base)
      simp at place
    · rw [List.concat_eq_append, ← List.append_assoc] at last
      obtain ⟨rfl, same_name⟩ := List.append_inj' last rfl
      obtain rfl := List.singleton_inj.mp same_name
      rw [List.concat_eq_append] at *
      rw [← List.append_assoc] at hv plain
      obtain ⟨rfl, stems⟩ := Layout.place_of_outputFor root output file found same
      rw [cut, cutName_nameWith known' hv.last.1] at stems
      obtain rfl : b = stem := String.toList_inj.mp stems
      exact ⟨hv, plain, reached⟩

theorem readable_of_readsBack (below : S ≠ []) (output : s.layout.output.LeadsTo T)
    (back : s.ReadsBack (String.ofList (naming D stem).text)
      (pathOf (S ++ D ++ [nameWith stem e]))) : Readable D stem := by
  obtain ⟨ref, found, parsed, finds, same⟩ := back
  obtain ⟨isToken, dollar, text⟩ := parse?_eq_some_iff.mp parsed
  have inner : ref.inner = (naming D stem).inner := by
    rw [String.toList_ofList, ← token_false] at text
    cases dollar with
    | false => simpa [token] using text.symm
    | true => simp [token, opening] at text
  obtain ⟨place, plain, reached⟩ :=
    reaches_stem source known nonempty valid below output isToken inner finds same
  have written : ValidPlace (D ++ [stem]) := by
    rw [List.append_assoc] at place
    exact place.right
  obtain ⟨directories, characters⟩ := of_reached isToken inner written reached
  refine ⟨directories, characters, place.last.2.2.1, place.last.2.2.2, ?_⟩
  rw [← plain]
  apply isTemplate_congr
  rw [fileName?_name place.last, (leadsTo_pathOf place).fileName?]

section

variable (output : s.layout.output.LeadsTo T)
  (isFile : s.files.isFile (pathOf (S ++ D ++ [nameWith stem e])) = true)
  (readable : Readable D stem)
include output isFile readable

theorem readsBack_of_readable :
    s.ReadsBack (String.ofList (naming D stem).text) (pathOf (S ++ D ++ [nameWith stem e])) := by
  obtain ⟨found, finds, same⟩ :=
    findSource?_naming source known nonempty valid output isFile readable
  refine ⟨naming D stem, found, parse?_eq_some_iff.mpr ⟨?_, false, ?_⟩, finds, same⟩
  · exact naming_isToken readable valid.left.right nonempty
  · rw [String.toList_ofList, token_false]

/-- In a document the reference gives way to the path of the output. -/
theorem resolveText_reference (unmarked : '#' ∉ stem.toList) (importer : Path)
    {before behind : String} (apart : before.toList.getLast? ≠ some '$') :
    (s.resolver importer).resolveText
        (before ++ String.ofList (naming D stem).text ++ behind) =
      (s.resolver importer).resolveText before ++
        s.layout.outputReference importer (pathOf (S ++ D ++ [nameWith stem e])) ++
        (s.resolver importer).resolveText behind := by
  obtain ⟨found, finds, same⟩ :=
    findSource?_naming source known nonempty valid output isFile readable
  have isToken := naming_isToken readable valid.left.right nonempty
  have split : (naming D stem).splitFragment = (stem.toList, none) :=
    Text.splitOnce_of_not_mem unmarked
  have piece : (s.resolver importer).resolvePiece (.reference (naming D stem)) =
      (s.layout.outputReference importer (pathOf (S ++ D ++ [nameWith stem e]))).toList := by
    have finds' : (s.resolver importer).files.findSource? (s.resolver importer).layout
        (relativePath (naming D stem).nameSpace stem.toList) = some found := finds
    rw [Resolver.resolvePiece, Resolver.replacement?_of_path split fun _ => rfl, finds',
      Option.map_some, Option.getD_some, Resolver.fragmentText, List.append_nil,
      ← Layout.outputReference_congr same]
    rfl
  rw [← token_false, Resolver.resolveText_around isToken fun _ => apart, piece,
    String.ofList_toList]

end

end

/-- The reference to a template reads back exactly when its directory and its stem are readable.
Without the mark of a fragment it becomes, wherever it stands in a document, the path that leads to
the output of the template. -/
theorem reads_back_iff_readable {file : Path} {name : String} (source : s.layout.source = pathOf S)
    (output : s.layout.output.LeadsTo T) (valid : ValidPlace (S ++ D ++ [name]))
    (place : file = pathOf (S ++ D ++ [name])) (isFile : s.files.isFile file = true)
    (template : file.isTemplate = true) :
    ∃ reference, s.referenceTo file = .ok reference ∧
      (Readable D file.stem → s.ReadsBack reference file) ∧
      (S ≠ [] → s.ReadsBack reference file → Readable D file.stem) ∧
      (Readable D file.stem → '#' ∉ file.stem.toList → ∀ importer,
        (∀ before behind : String, before.toList.getLast? ≠ some '$' →
          (s.resolver importer).resolveText (before ++ reference ++ behind) =
            (s.resolver importer).resolveText before ++
              s.layout.outputReference importer file ++
              (s.resolver importer).resolveText behind) ∧
        ∀ E other, importer.LeadsTo (S ++ E ++ [other]) → '\\' ∉ s.layout.output.chars →
          '\\' ∉ file.stem.toList →
          (s.resolver importer).Leads file ⟨s.layout.outputReference importer file⟩) := by
  subst place
  have fileName := (leadsTo_pathOf valid).fileName?
  obtain ⟨e, known, stem, nonempty, rfl⟩ := (isTemplate_iff fileName).mp template
  have stem_eq : (pathOf (S ++ D ++ [nameWith stem e])).stem = stem := by
    rw [Path.stem, Path.stem?, fileName, Option.map_some, cutName_nameWith known nonempty,
      String.ofList_toList, Option.getD_some]
  have root : s.layout.source.LeadsTo S := source ▸ leadsTo_pathOf valid.left.left
  rw [stem_eq]
  refine ⟨_, referenceTo_below source known nonempty valid, ?_, ?_, ?_⟩
  · exact readsBack_of_readable source known nonempty valid output isFile
  · intro below
    exact readable_of_readsBack source known nonempty valid below output
  · intro readable unmarked importer
    constructor
    · intro before behind apart
      exact resolveText_reference source known nonempty valid output isFile readable unmarked
        importer apart
    · intro E other leads plain solid
      have names : ∀ d ∈ D ++ [nameWith stem e], '\\' ∉ d.toList := by
        intro d hd mem
        rcases List.mem_append.mp hd with hd | hd
        · exact (readable.directories d hd _ mem).2 rfl
        · obtain rfl := List.mem_singleton.mp hd
          exact backslash_not_mem_nameWith known solid mem
      have clean : '\\' ∉ (s.layout.outputFor (pathOf (S ++ D ++ [nameWith stem e]))).chars := by
        rw [List.append_assoc] at valid ⊢
        exact Layout.backslash_not_mem_of_names source valid plain names
      exact Resolver.leads_outputReference (r := s.resolver importer) root output leads clean

/-- A directory with a template whose reference reads back, and one with a blank in its name. -/
def shelf : Sources where
  layout := ⟨⟨"/s"⟩, ⟨"/o"⟩⟩
  files := ⟨[], [(["s"], .directory), (["s", "v"], .directory), (["s", "m.yml"], .file (.text "")),
    (["s", "v", "x.yml"], .file (.text "")), (["s", "v", "a b.yml"], .file (.text ""))]⟩

theorem reads_back_iff_readable_shelf :
    (shelf.layout.source = pathOf ["s"] ∧ shelf.layout.output.LeadsTo ["o"] ∧
      ValidPlace (["s"] ++ ["v"] ++ ["x.yml"]) ∧ ValidPlace (["s"] ++ ["v"] ++ ["a b.yml"]) ∧
      shelf.files.isFile ⟨"/s/v/x.yml"⟩ = true ∧ shelf.files.isFile ⟨"/s/v/a b.yml"⟩ = true) ∧
    (shelf.referenceTo ⟨"/s/v/x.yml"⟩ = .ok "ref(v:x)" ∧
      shelf.ReadsBack "ref(v:x)" ⟨"/s/v/x.yml"⟩ ∧
      (shelf.resolver ⟨"/s/m.yml"⟩).resolveText "ref(v:x)" = "v/x.json" ∧
      (shelf.resolver ⟨"/s/m.yml"⟩).Leads ⟨"/s/v/x.yml"⟩ ⟨"v/x.json"⟩) ∧
    shelf.referenceTo ⟨"/s/v/a b.yml"⟩ = .ok "ref(v:a b)" ∧
      ¬ shelf.ReadsBack "ref(v:a b)" ⟨"/s/v/a b.yml"⟩ ∧
      (shelf.resolver ⟨"/s/m.yml"⟩).resolveText "ref(v:a b)" = "ref(v:a b)" := by
  have source : shelf.layout.source = pathOf ["s"] := by decide
  have output : shelf.layout.output.LeadsTo ["o"] := by decide
  have valid : ValidPlace (["s"] ++ ["v"] ++ ["x.yml"]) := by decide
  have valid' : ValidPlace (["s"] ++ ["v"] ++ ["a b.yml"]) := by decide
  have isFile : shelf.files.isFile ⟨"/s/v/x.yml"⟩ = true := by decide +kernel
  have isFile' : shelf.files.isFile ⟨"/s/v/a b.yml"⟩ = true := by decide +kernel
  obtain ⟨reference, made, back, -, resolved⟩ := reads_back_iff_readable source output valid
    (by decide : (⟨"/s/v/x.yml"⟩ : Path) = _) isFile (by decide +kernel)
  obtain ⟨reference', made', -, readable, -⟩ := reads_back_iff_readable source output valid'
    (by decide : (⟨"/s/v/a b.yml"⟩ : Path) = _) isFile' (by decide +kernel)
  have text : shelf.referenceTo ⟨"/s/v/x.yml"⟩ = .ok "ref(v:x)" :=
    referenceTo_eq_ok (by decide +kernel : _ = some ⟨['v'], ['x']⟩) (by decide +kernel)
  have text' : shelf.referenceTo ⟨"/s/v/a b.yml"⟩ = .ok "ref(v:a b)" :=
    referenceTo_eq_ok (by decide +kernel : _ = some ⟨['v'], ['a', ' ', 'b']⟩) (by decide +kernel)
  obtain rfl : reference = "ref(v:x)" := Except.ok.inj (made.symm.trans text)
  obtain rfl : reference' = "ref(v:a b)" := Except.ok.inj (made'.symm.trans text')
  have isReadable : Readable ["v"] (⟨"/s/v/x.yml"⟩ : Path).stem := by decide +kernel
  have leads := (resolved isReadable (by decide +kernel) ⟨"/s/m.yml"⟩).2 [] "m.yml" (by decide)
    (by decide) (by decide +kernel)
  have path : shelf.layout.outputReference ⟨"/s/m.yml"⟩ ⟨"/s/v/x.yml"⟩ = "v/x.json" := by
    decide +kernel
  refine ⟨⟨source, output, valid, valid', isFile, isFile'⟩,
    ⟨text, back isReadable, by decide +kernel, path ▸ leads⟩, text', ?_, by decide +kernel⟩
  exact fun reads => absurd (readable (by decide) reads) (by decide +kernel)

end Sources

end SchemaLoom
