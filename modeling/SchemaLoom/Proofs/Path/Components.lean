import Mathlib.Data.List.DropRight
import SchemaLoom.Path.Lexical

/-!
# Components of absolute paths

The components of an absolute path are the root and one for every piece behind it that is not void.
Joining appends components, a parent lacks the last one.
-/

namespace SchemaLoom

namespace Text

variable {separator : Char}

attribute [local simp] splitOn joinWith

theorem splitOn_ne_nil (cs : List Char) : splitOn separator cs ≠ [] := by
  cases cs with
  | nil => simp
  | cons c cs =>
    unfold splitOn
    split
    · simp
    · split <;> simp

@[simp] theorem splitOn_nil : splitOn separator [] = [[]] := rfl

theorem splitOn_append (a b : List Char) :
    splitOn separator (a ++ separator :: b) = splitOn separator a ++ splitOn separator b := by
  induction a with
  | nil => simp
  | cons c a ih =>
    by_cases hc : c = separator
    · simp [hc, ih]
    · simp only [List.cons_append, splitOn, if_neg hc, ih]
      cases hs : splitOn separator a with
      | nil => exact absurd hs (splitOn_ne_nil a)
      | cons piece pieces => rfl

theorem splitOn_of_not_mem {cs : List Char} (h : separator ∉ cs) : splitOn separator cs = [cs] := by
  induction cs with
  | nil => rfl
  | cons c cs ih =>
    rw [splitOn, if_neg (fun hc => h (by simp [hc])), ih (fun hc => h (by simp [hc]))]

theorem not_mem_of_mem_splitOn {cs piece : List Char} (h : piece ∈ splitOn separator cs) :
    separator ∉ piece := by
  induction cs generalizing piece with
  | nil => simp_all
  | cons c cs ih =>
    by_cases hc : c = separator
    · rw [splitOn, if_pos hc] at h
      rcases List.mem_cons.mp h with rfl | h
      · simp
      · exact ih h
    · rw [splitOn, if_neg hc] at h
      cases hs : splitOn separator cs with
      | nil => exact absurd hs (splitOn_ne_nil cs)
      | cons first pieces =>
        simp only [hs] at h ih
        rcases List.mem_cons.mp h with rfl | h
        · simpa [Ne.symm hc] using ih List.mem_cons_self
        · exact ih (List.mem_cons_of_mem _ h)

theorem joinWith_cons (piece : List Char) {pieces : List (List Char)} (h : pieces ≠ []) :
    joinWith [separator] (piece :: pieces) =
      piece ++ separator :: joinWith [separator] pieces := by
  cases pieces with
  | nil => exact absurd rfl h
  | cons next pieces => simp

theorem joinWith_append {a b : List (List Char)} (ha : a ≠ []) (hb : b ≠ []) :
    joinWith [separator] (a ++ b) =
      joinWith [separator] a ++ separator :: joinWith [separator] b := by
  induction a with
  | nil => exact absurd rfl ha
  | cons piece a ih =>
    cases a with
    | nil => simp [joinWith_cons _ hb]
    | cons next a =>
      have step : joinWith [separator] (piece :: next :: a) =
          piece ++ separator :: joinWith [separator] (next :: a) := joinWith_cons _ (by simp)
      rw [List.cons_append, joinWith_cons _ (by simp), ih (by simp), step]
      simp

theorem joinWith_splitOn (cs : List Char) : joinWith [separator] (splitOn separator cs) = cs := by
  induction cs with
  | nil => rfl
  | cons c cs ih =>
    by_cases hc : c = separator
    · rw [splitOn, if_pos hc, joinWith_cons _ (splitOn_ne_nil cs), ih, hc, List.nil_append]
    · rw [splitOn, if_neg hc]
      cases hs : splitOn separator cs with
      | nil => exact absurd hs (splitOn_ne_nil cs)
      | cons piece pieces =>
        rw [hs] at ih
        cases pieces with
        | nil => simpa using ih
        | cons next pieces => simpa using ih

theorem splitOn_joinWith {pieces : List (List Char)} (h : pieces ≠ [])
    (free : ∀ piece ∈ pieces, separator ∉ piece) :
    splitOn separator (joinWith [separator] pieces) = pieces := by
  induction pieces with
  | nil => exact absurd rfl h
  | cons piece pieces ih =>
    have hp := splitOn_of_not_mem (free piece List.mem_cons_self)
    cases pieces with
    | nil => exact hp
    | cons next pieces =>
      rw [joinWith_cons _ (by simp), splitOn_append, hp,
        ih (by simp) fun p hm => free p (List.mem_cons_of_mem _ hm), List.singleton_append]

end Text

namespace Path

@[simp] theorem chars_ofChars (cs : List Char) : (ofChars cs).chars = cs := by
  simp [ofChars, chars]

@[simp] theorem chars_mk (s : String) : chars ⟨s⟩ = s.toList := rfl

@[simp] theorem ofChars_chars (p : Path) : ofChars p.chars = p := by
  simp [ofChars, chars]

theorem ext_chars {p q : Path} (h : p.chars = q.chars) : p = q := by
  rw [← ofChars_chars p, h, ofChars_chars]

theorem same_iff {p q : Path} : p.same q = true ↔ p.components = q.components := by
  simp [same]

@[simp] theorem same_self (p : Path) : p.same p = true := same_iff.mpr rfl

theorem same_comm {p q : Path} : p.same q = q.same p := by
  rw [Bool.eq_iff_iff, same_iff, same_iff, eq_comm]

theorem same_congr {p q r : Path} (h : p.components = q.components) : p.same r = q.same r := by
  simp [same, h]

theorem startsWith_iff {p base : Path} :
    p.startsWith base = true ↔ base.components <+: p.components := by
  simp [startsWith, List.isPrefixOf_iff_prefix]

/-! ## Pieces -/

/-- A text between slashes that names something in a directory. -/
def IsName (s : String) : Prop := s ≠ "" ∧ '/' ∉ s.toList ∧ s ≠ "." ∧ s ≠ ".."

instance (s : String) : Decidable (IsName s) := inferInstanceAs (Decidable (_ ∧ _ ∧ _ ∧ _))

/-- The components behind the root. -/
def steps (cs : List Char) : List Component :=
  (Text.splitOn '/' cs).filterMap Component.ofPiece?

theorem toList_eq_iff {s : String} {cs : List Char} : s.toList = cs ↔ s = String.ofList cs := by
  constructor
  · rintro rfl; simp
  · rintro rfl; simp

theorem IsName.ofPiece? {s : String} (h : IsName s) :
    Component.ofPiece? s.toList = some (.name s) := by
  obtain ⟨nonempty, -, here, up⟩ := h
  have he : s.toList ≠ [] := fun hs => nonempty (toList_eq_iff.mp hs)
  have hh : s.toList ≠ ['.'] := fun hs => here (toList_eq_iff.mp hs)
  have hu : s.toList ≠ ['.', '.'] := fun hs => up (toList_eq_iff.mp hs)
  simp [Component.ofPiece?, isVoid, he, hh, hu]

theorem eq_toList_of_ofPiece? {piece : List Char} {s : String}
    (h : Component.ofPiece? piece = some (.name s)) : piece = s.toList := by
  unfold Component.ofPiece? at h
  split at h
  · simp at h
  · split at h
    · simp at h
    · obtain rfl : String.ofList piece = s := by simpa using h
      simp

theorem isName_of_ofPiece? {piece : List Char} {s : String} (free : '/' ∉ piece)
    (h : Component.ofPiece? piece = some (.name s)) : IsName s := by
  unfold Component.ofPiece? at h
  split at h
  · simp at h
  · rename_i solid
    split at h
    · simp at h
    · rename_i notUp
      obtain rfl : String.ofList piece = s := by simpa using h
      simp only [isVoid, Bool.or_eq_true, List.isEmpty_iff, beq_iff_eq, not_or] at solid
      refine ⟨fun hs => solid.1 ?_, by simpa using free, fun hs => solid.2 ?_, fun hs => notUp ?_⟩
      · simpa using congrArg String.toList hs
      · simpa using congrArg String.toList hs
      · simpa using congrArg String.toList hs

theorem ofPiece?_eq_none_iff {piece : List Char} :
    Component.ofPiece? piece = none ↔ isVoid piece = true := by
  unfold Component.ofPiece?
  split
  · simp_all
  · split <;> simp_all

theorem ofPiece?_ne_root {piece : List Char} : Component.ofPiece? piece ≠ some .root := by
  unfold Component.ofPiece?
  split
  · simp
  · split <;> simp

theorem ofPiece?_ne_here {piece : List Char} : Component.ofPiece? piece ≠ some .here := by
  unfold Component.ofPiece?
  split
  · simp
  · split <;> simp

theorem IsName.not_isVoid {s : String} (h : IsName s) : isVoid s.toList = false := by
  cases hv : isVoid s.toList with
  | false => rfl
  | true =>
    have := h.ofPiece?
    rw [ofPiece?_eq_none_iff.mpr hv] at this
    simp at this

@[simp] theorem steps_nil : steps [] = [] := rfl

theorem steps_append (a b : List Char) : steps (a ++ '/' :: b) = steps a ++ steps b := by
  simp [steps, Text.splitOn_append]

theorem steps_name {s : String} (h : IsName s) : steps s.toList = [.name s] := by
  simp [steps, Text.splitOn_of_not_mem h.2.1, h.ofPiece?]

theorem mem_steps {cs : List Char} {c : Component} (h : c ∈ steps cs) :
    c = .up ∨ ∃ s, IsName s ∧ c = .name s := by
  obtain ⟨piece, mem, hp⟩ := List.mem_filterMap.mp h
  cases c with
  | root => exact absurd hp ofPiece?_ne_root
  | here => exact absurd hp ofPiece?_ne_here
  | up => exact .inl rfl
  | name s => exact .inr ⟨s, isName_of_ofPiece? (Text.not_mem_of_mem_splitOn mem) hp, rfl⟩

theorem isAbsolute_iff {p : Path} : p.isAbsolute = true ↔ ∃ cs, p.chars = '/' :: cs := by
  unfold isAbsolute
  cases p.chars <;> simp

theorem split_absolute {p : Path} {cs : List Char} (h : p.chars = '/' :: cs) :
    p.split = (some .root, Text.splitOn '/' cs) := by
  have ha : p.isAbsolute = true := isAbsolute_iff.mpr ⟨cs, h⟩
  have hp : p.pieces = [] :: Text.splitOn '/' cs := by simp [pieces, h, Text.splitOn]
  simp [split, hp, ha]

theorem components_absolute {p : Path} {cs : List Char} (h : p.chars = '/' :: cs) :
    p.components = .root :: steps cs := by
  simp [components, split_absolute h, steps]

/-- A path is its root, or the `.` that it may begin with, and its steps. -/
theorem components_eq (p : Path) : ∃ front, p.components = front ++ steps p.chars ∧
    (p.isAbsolute = true ∧ front = [.root] ∨
      p.isAbsolute = false ∧ (front = [] ∨ front = [.here])) := by
  cases absolute : p.isAbsolute with
  | true =>
    obtain ⟨cs, hcs⟩ := isAbsolute_iff.mp absolute
    refine ⟨[.root], ?_, .inl ⟨rfl, rfl⟩⟩
    rw [components_absolute hcs, hcs]
    exact congrArg _ (steps_append [] cs).symm
  | false =>
    unfold components split
    rw [absolute]
    change ∃ front, _ = front ++ p.pieces.filterMap Component.ofPiece? ∧ _
    cases p.pieces with
    | nil => exact ⟨[], rfl, .inr ⟨rfl, .inl rfl⟩⟩
    | cons piece rest =>
      by_cases here : piece = ['.']
      · subst here
        exact ⟨[.here], by simp [Component.ofPiece?, isVoid], .inr ⟨rfl, .inr rfl⟩⟩
      · exact ⟨[], by simp [here], .inr ⟨rfl, .inl rfl⟩⟩

theorem isAbsolute_iff_components {p : Path} :
    p.isAbsolute = true ↔ ∃ rest, p.components = .root :: rest := by
  constructor
  · intro h
    obtain ⟨cs, hcs⟩ := isAbsolute_iff.mp h
    exact ⟨_, components_absolute hcs⟩
  · rintro ⟨rest, h⟩
    obtain ⟨front, whole, ⟨absolute, -⟩ | ⟨-, rfl | rfl⟩⟩ := p.components_eq
    · exact absolute
    · have mem : Component.root ∈ steps p.chars := by
        rw [h, List.nil_append] at whole
        simp [← whole]
      rcases mem_steps mem with he | ⟨s, -, he⟩ <;> simp at he
    · simp [h] at whole

/-- Only the empty path has no component. -/
theorem components_ne_nil {p : Path} (h : p.chars ≠ []) : p.components ≠ [] := by
  cases ha : p.isAbsolute with
  | true =>
    obtain ⟨rest, whole⟩ := isAbsolute_iff_components.mp ha
    rw [whole]
    exact List.cons_ne_nil _ _
  | false =>
    obtain ⟨c, cs, hc⟩ := List.exists_cons_of_ne_nil h
    have noSlash : c ≠ '/' := by
      rintro rfl
      rw [isAbsolute_iff.mpr ⟨cs, hc⟩] at ha
      simp at ha
    obtain ⟨piece, rest, pieces⟩ : ∃ piece rest, p.pieces = (c :: piece) :: rest := by
      unfold Path.pieces
      rw [hc, Text.splitOn, if_neg noSlash]
      cases Text.splitOn '/' cs with
      | nil => exact ⟨[], [], rfl⟩
      | cons piece rest => exact ⟨piece, rest, rfl⟩
    unfold components split
    rw [pieces, ha]
    simp only [Bool.false_eq_true, if_false]
    split
    · simp
    · rename_i solid
      have void : isVoid (c :: piece) = false := by simpa [isVoid] using solid
      cases found : Component.ofPiece? (c :: piece) with
      | none =>
        rw [ofPiece?_eq_none_iff, void] at found
        simp at found
      | some d => simp [found]
/-! ## Joining -/

/-- A relative text behind an absolute path: it begins at the root or behind a slash. -/
theorem join_chars {p q : Path} {cs : List Char} (hp : p.chars = '/' :: cs)
    (hq : q.isAbsolute = false) :
    ∃ front, (p.join q).chars = '/' :: (front ++ q.chars) ∧
      (front = [] ∨ front.getLast? = some '/') ∧ ∀ b, steps (front ++ b) = steps cs ++ steps b := by
  unfold join
  rw [if_neg (by simp [hq])]
  by_cases last : p.chars.getLast? = some '/'
  · rw [if_pos (by simp [last])]
    rw [hp] at last
    refine ⟨cs, by simp [hp], ?_⟩
    rcases List.eq_nil_or_concat cs with rfl | ⟨init, c, rfl⟩
    · exact ⟨.inl rfl, fun b => rfl⟩
    · rw [List.concat_eq_append] at *
      obtain rfl : c = '/' := by
        rw [← List.cons_append, List.getLast?_append] at last
        simpa using last
      refine ⟨.inr (by simp), fun b => ?_⟩
      have hi : steps (init ++ ['/']) = steps init := by simpa using steps_append init []
      rw [hi, List.append_assoc, List.singleton_append, steps_append]
  · rw [if_neg (by simpa [hp] using last)]
    exact ⟨cs ++ ['/'], by simp [hp], .inr (by simp), fun b => by simp [steps_append]⟩

theorem join_isAbsolute {p : Path} (q : Path) (hp : p.isAbsolute = true) :
    (p.join q).isAbsolute = true := by
  cases hq : q.isAbsolute with
  | true => simp [join, hq]
  | false =>
    obtain ⟨cs, hcs⟩ := isAbsolute_iff.mp hp
    obtain ⟨front, hf, -⟩ := join_chars hcs hq
    exact isAbsolute_iff.mpr ⟨_, hf⟩

theorem isAbsolute_join_of_relative {p q : Path} (hp : p.isAbsolute = false)
    (hq : q.isAbsolute = false) : (p.join q).isAbsolute = false := by
  unfold join
  rw [if_neg (by simp [hq])]
  unfold isAbsolute at hp hq ⊢
  cases hc : p.chars with
  | nil => simpa using hq
  | cons c cs =>
    rw [hc] at hp
    split <;> simpa using hp

theorem components_join {p q : Path} (hp : p.isAbsolute = true) (hq : q.isAbsolute = false) :
    (p.join q).components = p.components ++ steps q.chars := by
  obtain ⟨cs, hcs⟩ := isAbsolute_iff.mp hp
  obtain ⟨front, hf, -, hs⟩ := join_chars hcs hq
  rw [components_absolute hf, hs, components_absolute hcs, List.cons_append]

theorem IsName.isAbsolute {s : String} (h : IsName s) : Path.isAbsolute ⟨s⟩ = false := by
  cases ha : Path.isAbsolute ⟨s⟩ with
  | false => rfl
  | true =>
    obtain ⟨cs, hcs⟩ := isAbsolute_iff.mp ha
    have head : '/' ∈ Path.chars ⟨s⟩ := by simp [hcs]
    exact absurd head h.2.1

theorem components_join_name {p : Path} {s : String} (hp : p.isAbsolute = true) (hs : IsName s) :
    (p.join ⟨s⟩).components = p.components ++ [.name s] := by
  rw [components_join hp hs.isAbsolute]
  exact congrArg _ (steps_name hs)

/-! ## Parents -/

theorem dropVoidEnd_eq (pieces : List (List Char)) :
    dropVoidEnd pieces = pieces.rdropWhile isVoid := rfl

theorem mem_dropVoidEnd {pieces : List (List Char)} {piece : List Char}
    (h : piece ∈ dropVoidEnd pieces) : piece ∈ pieces :=
  (List.rdropWhile_prefix isVoid pieces).subset h

theorem dropVoidEnd_eq_nil_iff {pieces : List (List Char)} :
    dropVoidEnd pieces = [] ↔ pieces.filterMap Component.ofPiece? = [] := by
  simp [dropVoidEnd_eq, List.rdropWhile_eq_nil_iff, ofPiece?_eq_none_iff]

theorem filterMap_dropVoidEnd (pieces : List (List Char)) :
    (dropVoidEnd pieces).filterMap Component.ofPiece? = pieces.filterMap Component.ofPiece? := by
  induction pieces using List.reverseRecOn with
  | nil => rfl
  | append_singleton pieces piece ih =>
    rw [dropVoidEnd_eq, List.rdropWhile_concat, List.filterMap_append]
    cases hv : isVoid piece with
    | true => simpa [ofPiece?_eq_none_iff.mpr hv, dropVoidEnd_eq] using ih
    | false => simp

theorem filterMap_dropLast_dropVoidEnd (pieces : List (List Char)) :
    (dropVoidEnd pieces).dropLast.filterMap Component.ofPiece? =
      (pieces.filterMap Component.ofPiece?).dropLast := by
  induction pieces using List.reverseRecOn with
  | nil => rfl
  | append_singleton pieces piece ih =>
    rw [dropVoidEnd_eq, List.rdropWhile_concat, List.filterMap_append]
    cases hv : isVoid piece with
    | true => simpa [ofPiece?_eq_none_iff.mpr hv, dropVoidEnd_eq] using ih
    | false =>
      cases hc : Component.ofPiece? piece with
      | none => simp [ofPiece?_eq_none_iff.mp hc] at hv
      | some c => simp [hc]

/-- The last component, with the pieces before it and the void ones behind it. -/
theorem dropVoidEnd_concat {pieces : List (List Char)} {before : List Component} {c : Component}
    (h : pieces.filterMap Component.ofPiece? = before ++ [c]) :
    ∃ init piece void, pieces = init ++ [piece] ++ void ∧ dropVoidEnd pieces = init ++ [piece] ∧
      Component.ofPiece? piece = some c ∧ init.filterMap Component.ofPiece? = before := by
  induction pieces using List.reverseRecOn with
  | nil => simp at h
  | append_singleton pieces piece ih =>
    rw [List.filterMap_append] at h
    cases hp : Component.ofPiece? piece with
    | none =>
      have hv := ofPiece?_eq_none_iff.mp hp
      obtain ⟨init, last, void, rfl, hd, hc, hi⟩ := ih (by simpa [hp] using h)
      refine ⟨init, last, void ++ [piece], by simp, ?_, hc, hi⟩
      rw [dropVoidEnd_eq, List.rdropWhile_concat_pos _ _ _ hv, ← dropVoidEnd_eq, hd]
    | some d =>
      have hv : ¬ isVoid piece = true := fun hv => by simp [ofPiece?_eq_none_iff.mpr hv] at hp
      obtain ⟨hi, hl⟩ := List.append_inj' h (by simp [hp])
      refine ⟨pieces, piece, [], by simp, ?_, by simpa [hp] using hl, hi⟩
      rw [dropVoidEnd_eq, List.rdropWhile_concat_neg _ _ _ hv]

theorem steps_joinWith {pieces : List (List Char)} (free : ∀ piece ∈ pieces, '/' ∉ piece) :
    steps (Text.joinWith ['/'] pieces) = pieces.filterMap Component.ofPiece? := by
  cases pieces with
  | nil => rfl
  | cons piece pieces => rw [steps, Text.splitOn_joinWith (by simp) free]

theorem isAbsolute_joinWith {pieces : List (List Char)} (free : ∀ piece ∈ pieces, '/' ∉ piece)
    (first : pieces.head? ≠ some []) :
    (ofChars (Text.joinWith ['/'] pieces)).isAbsolute = false := by
  cases pieces with
  | nil => rfl
  | cons piece pieces =>
    rw [Bool.eq_false_iff]
    intro absolute
    obtain ⟨cs, hcs⟩ := isAbsolute_iff.mp absolute
    rw [chars_ofChars] at hcs
    have split := Text.splitOn_joinWith (by simp) free
    rw [hcs, Text.splitOn, if_pos rfl] at split
    exact first (by rw [← (List.cons.inj split).1]; rfl)

theorem parent?_eq_none {p : Path} {cs : List Char} (hp : p.chars = '/' :: cs)
    (h : steps cs = []) : p.parent? = none := by
  have hn : dropVoidEnd (Text.splitOn '/' cs) = [] := dropVoidEnd_eq_nil_iff.mpr h
  simp [parent?, split_absolute hp, hn]

theorem parent?_eq_some {p : Path} {cs : List Char} (hp : p.chars = '/' :: cs)
    (h : steps cs ≠ []) :
    ∃ pieces, p.parent? = some (ofChars ('/' :: Text.joinWith ['/'] (dropVoidEnd pieces))) ∧
      (∀ piece ∈ pieces, '/' ∉ piece) ∧ pieces.filterMap Component.ofPiece? =
        (steps cs).dropLast := by
  refine ⟨(dropVoidEnd (Text.splitOn '/' cs)).dropLast, ?_, ?_, ?_⟩
  · cases hd : dropVoidEnd (Text.splitOn '/' cs) with
    | nil => exact absurd (dropVoidEnd_eq_nil_iff.mp hd) h
    | cons piece pieces => simp [parent?, split_absolute hp, hd, unsplit]
  · intro piece mem
    refine Text.not_mem_of_mem_splitOn (?_ : piece ∈ Text.splitOn '/' cs)
    exact mem_dropVoidEnd ((List.dropLast_subset _) mem)
  · exact filterMap_dropLast_dropVoidEnd _

theorem components_parent? {p q : Path} (hp : p.isAbsolute = true) (h : p.parent? = some q) :
    q.isAbsolute = true ∧ ∃ c, p.components = q.components ++ [c] := by
  obtain ⟨cs, hcs⟩ := isAbsolute_iff.mp hp
  by_cases hs : steps cs = []
  · simp [parent?_eq_none hcs hs] at h
  · obtain ⟨pieces, hq, free, hf⟩ := parent?_eq_some hcs hs
    obtain rfl := Option.some.inj (hq.symm.trans h)
    have hc := components_absolute (chars_ofChars ('/' :: Text.joinWith ['/'] (dropVoidEnd pieces)))
    rw [steps_joinWith fun piece mem => free piece (mem_dropVoidEnd mem), filterMap_dropVoidEnd,
      hf] at hc
    refine ⟨isAbsolute_iff.mpr ⟨_, chars_ofChars _⟩, (steps cs).getLast hs, ?_⟩
    rw [components_absolute hcs, hc, List.cons_append, List.dropLast_append_getLast]

end Path

end SchemaLoom
