import SchemaLoom.FileSystem
import SchemaLoom.Layout
import SchemaLoom.Proofs.Path.Components

/-!
# Paths of places

An absolute path without `..` leads to one place, however it is written. The canonical path of a
place is the one text that `pathOf` gives; normalizing yields canonical paths, and two canonical
paths that name the same place are equal.
-/

namespace SchemaLoom

/-- A place that a file or directory can have. -/
def ValidPlace (place : Place) : Prop := ∀ s ∈ place, Path.IsName s

instance (place : Place) : Decidable (ValidPlace place) :=
  inferInstanceAs (Decidable (∀ s ∈ place, Path.IsName s))

namespace ValidPlace

variable {a b : Place} {s : String}

theorem nil : ValidPlace [] := by simp [ValidPlace]

theorem append (ha : ValidPlace a) (hb : ValidPlace b) : ValidPlace (a ++ b) := by
  intro s mem
  rcases List.mem_append.mp mem with mem | mem
  · exact ha s mem
  · exact hb s mem

theorem left (h : ValidPlace (a ++ b)) : ValidPlace a :=
  fun s mem => h s (List.mem_append_left _ mem)

theorem right (h : ValidPlace (a ++ b)) : ValidPlace b :=
  fun s mem => h s (List.mem_append_right _ mem)

theorem singleton (h : Path.IsName s) : ValidPlace [s] := by simpa [ValidPlace] using h

theorem last (h : ValidPlace (a ++ [s])) : Path.IsName s := h s (by simp)

theorem filterMap (h : ValidPlace a) :
    (a.map String.toList).filterMap Path.Component.ofPiece? = a.map .name := by
  induction a with
  | nil => rfl
  | cons s a ih =>
    have hs := (h s List.mem_cons_self).ofPiece?
    simp [hs, ih fun t mem => h t (List.mem_cons_of_mem _ mem)]

theorem dropVoidEnd (h : ValidPlace a) :
    Path.dropVoidEnd (a.map String.toList) = a.map String.toList := by
  rw [Path.dropVoidEnd_eq, List.rdropWhile_eq_self_iff]
  intro hl void
  obtain ⟨t, ht, he⟩ := List.mem_map.mp (List.getLast_mem hl)
  have := (h t ht).ofPiece?
  rw [he, Path.ofPiece?_eq_none_iff.mpr void] at this
  simp at this

theorem free (h : ValidPlace a) : ∀ piece ∈ a.map String.toList, '/' ∉ piece := by
  intro piece mem
  obtain ⟨s, hs, rfl⟩ := List.mem_map.mp mem
  exact (h s hs).2.1

theorem steps (h : ValidPlace a) :
    Path.steps (Text.joinWith ['/'] (a.map String.toList)) = a.map .name := by
  rw [Path.steps_joinWith h.free, h.filterMap]

end ValidPlace

namespace Path

/-- The components of the path are the root and the names of the place. -/
def LeadsTo (p : Path) (place : Place) : Prop := p.components = .root :: place.map .name

instance (p : Path) (place : Place) : Decidable (p.LeadsTo place) :=
  inferInstanceAs (Decidable (_ = _))

theorem parent?_leadsTo {p : Path} {a : Place} {c : Component}
    (h : p.components = .root :: a.map .name ++ [c]) : ∃ q, p.parent? = some q ∧ q.LeadsTo a := by
  have ha : p.isAbsolute = true := isAbsolute_iff_components.mpr ⟨_, h⟩
  obtain ⟨cs, hcs⟩ := isAbsolute_iff.mp ha
  have hs : steps cs = a.map .name ++ [c] := by
    rw [components_absolute hcs, List.cons_append] at h
    exact (List.cons.inj h).2
  obtain ⟨pieces, hq, -⟩ := parent?_eq_some hcs (by simp [hs])
  obtain ⟨-, d, hd⟩ := components_parent? ha hq
  refine ⟨_, hq, ?_⟩
  rw [h] at hd
  exact (List.append_inj' hd rfl).1.symm

namespace LeadsTo

variable {p q : Path} {a b : Place} {s : String}

theorem isAbsolute (h : p.LeadsTo a) : p.isAbsolute = true :=
  isAbsolute_iff_components.mpr ⟨_, h⟩

theorem chars (h : p.LeadsTo a) : ∃ cs, p.chars = '/' :: cs ∧ steps cs = a.map .name := by
  obtain ⟨cs, hcs⟩ := isAbsolute_iff.mp h.isAbsolute
  have := components_absolute hcs
  rw [h] at this
  exact ⟨cs, hcs, (List.cons.inj this).2.symm⟩

theorem valid (h : p.LeadsTo a) : ValidPlace a := by
  obtain ⟨cs, -, hs⟩ := h.chars
  intro s mem
  have : Component.name s ∈ steps cs := hs ▸ List.mem_map_of_mem mem
  rcases mem_steps this with he | ⟨t, ht, he⟩
  · simp at he
  · exact (Component.name.inj he) ▸ ht

theorem names_inj {a b : Place} (h : a.map Component.name = b.map Component.name) : a = b :=
  List.map_injective_iff.mpr (fun _ _ => Component.name.inj) h

theorem unique (ha : p.LeadsTo a) (hb : p.LeadsTo b) : a = b :=
  names_inj (List.cons.inj (ha.symm.trans hb)).2

theorem same_iff (ha : p.LeadsTo a) (hb : q.LeadsTo b) : p.same q = true ↔ a = b := by
  rw [Path.same_iff]
  constructor
  · intro h
    exact names_inj (List.cons.inj (ha.symm.trans (h.trans hb))).2
  · rintro rfl
    exact ha.trans hb.symm

theorem startsWith_iff (ha : p.LeadsTo a) (hb : q.LeadsTo b) :
    p.startsWith q = true ↔ b <+: a := by
  rw [Path.startsWith_iff, ha, hb, List.cons_prefix_cons]
  simp only [true_and]
  constructor
  · intro h
    rw [List.prefix_iff_eq_take] at h ⊢
    rw [← List.map_take] at h
    simpa using names_inj h
  · intro h
    exact h.map _

theorem join_name (h : p.LeadsTo a) (hs : IsName s) : (p.join ⟨s⟩).LeadsTo (a ++ [s]) := by
  unfold LeadsTo
  rw [components_join_name h.isAbsolute hs, h]
  simp

theorem parent? (h : p.LeadsTo (a ++ [s])) : ∃ q, p.parent? = some q ∧ q.LeadsTo a :=
  parent?_leadsTo (c := .name s) (by simpa [LeadsTo] using h)

theorem parent?_nil (h : p.LeadsTo []) : p.parent? = none := by
  obtain ⟨cs, hcs, hs⟩ := h.chars
  exact parent?_eq_none hcs hs

theorem fileName? (h : p.LeadsTo (a ++ [s])) : p.fileName? = some s := by
  unfold Path.fileName?
  rw [h, List.map_append, ← List.cons_append, List.map_singleton, List.getLast?_append]
  rfl

end LeadsTo

end Path

namespace FileSystem

open SchemaLoom.Path

variable {a b : Place} {s : String}

theorem chars_pathOf (place : Place) :
    (pathOf place).chars = '/' :: Text.joinWith ['/'] (place.map String.toList) := by
  simp [pathOf]

theorem leadsTo_pathOf (h : ValidPlace a) : (pathOf a).LeadsTo a := by
  unfold LeadsTo
  rw [components_absolute (chars_pathOf a), h.steps]

theorem pathOf_inj (ha : ValidPlace a) (hb : ValidPlace b) (h : pathOf a = pathOf b) : a = b :=
  (leadsTo_pathOf ha).unique (h ▸ leadsTo_pathOf hb)

theorem joinWith_snoc (a : Place) (s : String) :
    ∃ front, Text.joinWith ['/'] ((a ++ [s]).map String.toList) = front ++ s.toList ∧
      (front = [] ∨ front.getLast? = some '/') ∧
      (a = [] → front = []) ∧
        (a ≠ [] → front = Text.joinWith ['/'] (a.map String.toList) ++ ['/']) := by
  by_cases ha : a = []
  · subst ha
    exact ⟨[], rfl, .inl rfl, fun _ => rfl, fun h => absurd rfl h⟩
  · refine ⟨_, ?_, .inr ?_, fun h => absurd h ha, fun _ => rfl⟩
    · rw [List.map_append, Text.joinWith_append (by simpa using ha) (by simp)]
      simp [Text.joinWith]
    · simp

theorem pathOf_extended (a : Place) (s : String) (more : List Char) :
    ofChars ((pathOf (a ++ [s])).chars ++ more) =
      pathOf (a ++ [String.ofList (s.toList ++ more)]) := by
  obtain ⟨front, hf, -, hnil, hcons⟩ := joinWith_snoc a s
  obtain ⟨front', hf', -, hnil', hcons'⟩ := joinWith_snoc a (String.ofList (s.toList ++ more))
  obtain rfl : front = front' := by
    by_cases ha : a = []
    · rw [hnil ha, hnil' ha]
    · rw [hcons ha, hcons' ha]
  apply ext_chars
  rw [chars_ofChars, chars_pathOf, chars_pathOf, hf, hf']
  simp

theorem pathOf_getLast (h : ValidPlace (a ++ [s])) :
    (pathOf (a ++ [s])).chars.getLast? ≠ some '/' := by
  obtain ⟨front, hf, -⟩ := joinWith_snoc a s
  rw [chars_pathOf, hf, ← List.cons_append]
  obtain ⟨nonempty, free, -⟩ := h.last
  cases hs : s.toList.getLast? with
  | none =>
    have : s.toList = [] := List.getLast?_eq_none_iff.mp hs
    exact absurd (toList_eq_iff.mp this) nonempty
  | some c =>
    rw [List.getLast?_append, hs, Option.some_or]
    rintro ⟨⟩
    exact free (List.mem_of_getLast? hs)

theorem pathOf_join (ha : ValidPlace a) (hs : IsName s) :
    (pathOf a).join ⟨s⟩ = pathOf (a ++ [s]) := by
  have hr := hs.isAbsolute
  apply ext_chars
  rcases List.eq_nil_or_concat a with rfl | ⟨a, t, rfl⟩
  · simp [Path.join, hr, chars_pathOf, Text.joinWith]
  · rw [List.concat_eq_append] at *
    have hl := pathOf_getLast ha
    have hc := chars_pathOf (a ++ [t])
    have hn : (pathOf (a ++ [t])).chars.isEmpty = false := by simp [hc]
    have joined : Text.joinWith ['/'] ((a ++ [t]).map String.toList ++ [s.toList]) =
        Text.joinWith ['/'] ((a ++ [t]).map String.toList) ++
          '/' :: Text.joinWith ['/'] [s.toList] :=
      Text.joinWith_append (by simp) (by simp)
    have names : (a ++ [t] ++ [s]).map String.toList =
        (a ++ [t]).map String.toList ++ [s.toList] := List.map_append
    unfold Path.join
    rw [if_neg (by simp [hr]), if_neg (by simp [hl, hn]), chars_ofChars, hc, chars_pathOf, names,
      joined]
    simp [Text.joinWith]

theorem parent?_pathOf (h : ValidPlace (a ++ [s])) :
    (pathOf (a ++ [s])).parent? = some (pathOf a) := by
  have hsplit := split_absolute (chars_pathOf (a ++ [s]))
  rw [Text.splitOn_joinWith (by simp) h.free] at hsplit
  unfold Path.parent?
  rw [hsplit]
  simp only [h.dropVoidEnd]
  rw [List.map_append, List.map_singleton]
  cases hm : a.map String.toList ++ [s.toList] with
  | nil => simp at hm
  | cons piece pieces =>
    simp only
    rw [← hm, List.dropLast_concat, h.left.dropVoidEnd]
    rfl

theorem dropNames_valid (h : ValidPlace (a ++ b)) :
    dropNames a.length ((a ++ b).map String.toList) = b.map String.toList := by
  induction a with
  | nil =>
    cases b with
    | nil => rfl
    | cons s b =>
      have hd := h.dropVoidEnd
      have hv : isVoid s.toList = false := (h s List.mem_cons_self).not_isVoid
      simpa [dropNames, hv] using hd
  | cons s a ih =>
    have hv : isVoid s.toList = false := (h s List.mem_cons_self).not_isVoid
    simpa [dropNames, hv] using ih fun t mem => h t (List.mem_cons_of_mem _ mem)

theorem below?_pathOf (h : ValidPlace (a ++ b)) :
    (pathOf (a ++ b)).below? (pathOf a) =
      some (ofChars (Text.joinWith ['/'] (b.map String.toList))) := by
  have hs : (pathOf (a ++ b)).startsWith (pathOf a) = true :=
    ((leadsTo_pathOf h).startsWith_iff (leadsTo_pathOf h.left)).mpr (List.prefix_append a b)
  have hn : (pathOf a).components.length = a.length + 1 := by
    rw [leadsTo_pathOf h.left]
    simp
  unfold Path.below?
  rw [if_pos hs, hn, split_absolute (chars_pathOf (a ++ b))]
  by_cases empty : a ++ b = []
  · obtain ⟨rfl, rfl⟩ := List.append_eq_nil_iff.mp empty
    rfl
  · rw [Text.splitOn_joinWith (by simpa using empty) h.free]
    simp only [dropNames_valid h, unsplit]

/-! ## Normalizing -/

/-- What resolving an absolute path reaches: a canonical path, or a path that leads above the
root. -/
def Resolved (p : Path) : Prop :=
  (∃ a, ValidPlace a ∧ p = pathOf a) ∨ p.isAbsolute = true ∧ p.components[1]? = some .up

theorem Resolved.join {p : Path} (h : Resolved p) (hs : IsName s) : Resolved (p.join ⟨s⟩) := by
  rcases h with ⟨a, ha, rfl⟩ | ⟨ha, up⟩
  · exact .inl ⟨a ++ [s], ha.append (.singleton hs), pathOf_join ha hs⟩
  · refine .inr ⟨join_isAbsolute _ ha, ?_⟩
    rw [components_join_name ha hs, List.getElem?_append_left]
    · exact up
    · exact (List.getElem?_eq_some_iff.mp up).1

theorem Resolved.up {p : Path} (h : Resolved p) : Resolved (resolveStep p .up) := by
  rcases h with ⟨a, ha, rfl⟩ | ⟨ha, up⟩
  · rcases List.eq_nil_or_concat a with rfl | ⟨a, t, rfl⟩
    · exact .inr ⟨by decide, by decide⟩
    · rw [List.concat_eq_append] at *
      simp only [resolveStep, parent?_pathOf ha]
      exact .inl ⟨a, ha.left, rfl⟩
  · obtain ⟨cs, hcs⟩ := isAbsolute_iff.mp ha
    have hc := components_absolute hcs
    rw [hc, List.getElem?_cons_succ] at up
    have hn : steps cs ≠ [] := fun hn => by simp [hn] at up
    obtain ⟨pieces, hq, free, hf⟩ := parent?_eq_some hcs hn
    simp only [resolveStep, hq]
    by_cases last : (steps cs).dropLast = []
    · have : dropVoidEnd pieces = [] := dropVoidEnd_eq_nil_iff.mpr (hf.trans last)
      rw [this]
      exact .inl ⟨[], .nil, rfl⟩
    · refine .inr ⟨isAbsolute_iff.mpr ⟨_, chars_ofChars _⟩, ?_⟩
      rw [components_absolute (chars_ofChars _),
        steps_joinWith fun piece mem => free piece (mem_dropVoidEnd mem), filterMap_dropVoidEnd, hf,
        List.getElem?_cons_succ]
      cases hsteps : steps cs with
      | nil => exact absurd hsteps hn
      | cons c rest =>
        rw [hsteps] at up last
        cases rest with
        | nil => simp at last
        | cons d rest => simpa using up

theorem Resolved.foldl {components : List Component} {p : Path} (h : Resolved p)
    (ordinary : ∀ c ∈ components, c = .up ∨ ∃ s, IsName s ∧ c = .name s) :
    Resolved (components.foldl resolveStep p) := by
  induction components generalizing p with
  | nil => exact h
  | cons c components ih =>
    apply ih _ fun c mem => ordinary c (List.mem_cons_of_mem _ mem)
    rcases ordinary c List.mem_cons_self with rfl | ⟨s, hs, rfl⟩
    · exact h.up
    · exact h.join hs

theorem normalize_resolved {p : Path} (h : p.isAbsolute = true) : Resolved p.normalize := by
  obtain ⟨cs, hcs⟩ := isAbsolute_iff.mp h
  unfold Path.normalize
  rw [components_absolute hcs, List.foldl_cons]
  exact Resolved.foldl (.inl ⟨[], .nil, by decide⟩) fun c mem => mem_steps mem

theorem normalize_startsWith {p q : Path} (h : p.isAbsolute = true) (hq : q.LeadsTo a)
    (below : a ≠ []) (hs : p.normalize.startsWith q = true) :
    ∃ b, ValidPlace (a ++ b) ∧ p.normalize = pathOf (a ++ b) := by
  rcases normalize_resolved h with ⟨c, hc, he⟩ | ⟨-, up⟩
  · rw [he] at hs ⊢
    obtain ⟨b, rfl⟩ := ((leadsTo_pathOf hc).startsWith_iff hq).mp hs
    exact ⟨b, hc, rfl⟩
  · obtain ⟨rest, hrest⟩ := Path.startsWith_iff.mp hs
    rw [← hrest, hq] at up
    cases a with
    | nil => exact absurd rfl below
    | cons s a => simp at up

end FileSystem

namespace Path

/-! ## The last name -/

theorem isName_of_mem_components {p : Path} {s : String} (absolute : p.isAbsolute = true)
    (h : .name s ∈ p.components) : IsName s := by
  obtain ⟨cs, hcs⟩ := isAbsolute_iff.mp absolute
  rw [components_absolute hcs, List.mem_cons] at h
  rcases mem_steps (h.resolve_left (by simp)) with up | ⟨t, name, eq⟩
  · simp at up
  · exact Component.name.inj eq ▸ name

theorem fileName?_of_components {p : Path} {before : List Component} {s : String}
    (h : p.components = .root :: before ++ [.name s]) : p.fileName? = some s := by
  rw [Path.fileName?, h, List.getLast?_append]
  rfl

theorem components_of_fileName? {p : Path} {s : String} (absolute : p.isAbsolute = true)
    (named : p.fileName? = some s) : ∃ before, p.components = .root :: before ++ [.name s] := by
  obtain ⟨cs, hcs⟩ := isAbsolute_iff.mp absolute
  have whole := components_absolute hcs
  rcases List.eq_nil_or_concat (steps cs) with empty | ⟨before, c, last⟩
  · simp [Path.fileName?, whole, empty] at named
  · rw [List.concat_eq_append] at last
    rw [Path.fileName?, whole, last, ← List.cons_append, List.getLast?_append] at named
    cases c with
    | name t =>
      obtain rfl : t = s := by simpa using named
      exact ⟨before, by rw [whole, last, List.cons_append]⟩
    | root | here | up => simp at named

/-! ## Extensions -/

theorem cutName_initial (name : List Char) : (cutName name).1 <+: name := by
  unfold cutName
  simp only
  split
  · exact List.prefix_rfl
  · split
    · exact List.prefix_rfl
    · exact List.take_prefix _ _

theorem steps_behind {front : List Char} (h : front = [] ∨ front.getLast? = some '/')
    (b : List Char) : steps (front ++ b) = steps front ++ steps b := by
  rcases h with rfl | h
  · rfl
  · obtain ⟨init, rfl⟩ := List.getLast?_eq_some_iff.mp h
    have hi : steps (init ++ ['/']) = steps init := by simpa using steps_append init []
    rw [hi, List.append_assoc, List.singleton_append, steps_append]

theorem joinWith_concat (init : List (List Char)) (piece : List Char)
    (free : ∀ piece ∈ init, '/' ∉ piece) :
    ∃ front, Text.joinWith ['/'] (init ++ [piece]) = front ++ piece ∧
      (front = [] ∨ front.getLast? = some '/') ∧
      steps front = init.filterMap Component.ofPiece? := by
  by_cases hi : init = []
  · subst hi
    exact ⟨[], rfl, .inl rfl, rfl⟩
  · refine ⟨Text.joinWith ['/'] init ++ ['/'], ?_, .inr (by simp), ?_⟩
    · rw [Text.joinWith_append hi (by simp)]
      simp [Text.joinWith]
    · rw [← steps_joinWith free]
      simpa using steps_append (Text.joinWith ['/'] init) []

/-- The text of a path around its last name. -/
theorem lastName {p : Path} {before : List Component} {s : String}
    (h : p.components = .root :: before ++ [.name s]) :
    ∃ front rest, p.chars = '/' :: (front ++ s.toList) ++ rest ∧ p.tailLength = rest.length ∧
      (front = [] ∨ front.getLast? = some '/') ∧ steps front = before := by
  obtain ⟨cs, hcs⟩ := isAbsolute_iff.mp (isAbsolute_iff_components.mpr ⟨_, h⟩)
  rw [components_absolute hcs, List.cons_append] at h
  have hs := (List.cons.inj h).2
  obtain ⟨init, piece, void, hpieces, hd, hp, hi⟩ := dropVoidEnd_concat hs
  obtain rfl := eq_toList_of_ofPiece? hp
  obtain ⟨front, hf, behind, hsteps⟩ := joinWith_concat init s.toList fun q mem =>
    Text.not_mem_of_mem_splitOn (hpieces ▸ (by simp [mem]) : q ∈ Text.splitOn '/' cs)
  obtain ⟨rest, hrest⟩ : ∃ rest, cs = front ++ s.toList ++ rest := by
    have hj : Text.joinWith ['/'] (Text.splitOn '/' cs) = cs := Text.joinWith_splitOn cs
    rw [hpieces] at hj
    by_cases hv : void = []
    · exact ⟨[], by rw [← hj, hv, List.append_nil, hf, List.append_nil]⟩
    · exact ⟨_, by rw [← hj, Text.joinWith_append (by simp) hv, hf]⟩
  refine ⟨front, rest, by rw [hcs, hrest]; simp, ?_, behind, hsteps.trans hi⟩
  have hj : (unsplit (some .root) (init ++ [s.toList])).chars = '/' :: (front ++ s.toList) := by
    simp [unsplit, hf]
  unfold tailLength
  rw [split_absolute hcs]
  simp only [hd]
  cases hc : init ++ [s.toList] with
  | nil => simp at hc
  | cons q qs =>
    simp only
    rw [← hc, hj, hcs, hrest]
    simp only [List.length_cons, List.length_append]
    omega

/-- What a path looks like when its last name gets a new extension. -/
theorem withExtension_eq {p : Path} {before : List Component} {s : String} (e : String)
    (h : p.components = .root :: before ++ [.name s]) :
    ∃ front, (front = [] ∨ front.getLast? = some '/') ∧ steps front = before ∧
      p.withExtension e = ofChars ('/' :: (front ++ (cutName s.toList).1) ++
        if (cutName s.toList).1 = ['.'] && p.tailLength = 0 then ['.']
        else if e.toList.isEmpty then [] else '.' :: e.toList) := by
  obtain ⟨front, rest, hchars, htail, behind, hsteps⟩ := lastName h
  obtain ⟨cut, hcut⟩ := cutName_initial s.toList
  have upToName : p.chars.take (p.chars.length - p.tailLength) = '/' :: (front ++ s.toList) := by
    rw [htail, hchars, List.length_append, Nat.add_sub_cancel, List.take_left]
  have kept : ('/' :: (front ++ s.toList)).take (('/' :: (front ++ s.toList)).length -
      (s.toList.length - (cutName s.toList).1.length)) =
        '/' :: (front ++ (cutName s.toList).1) := by
    have whole : '/' :: (front ++ s.toList) = ('/' :: (front ++ (cutName s.toList).1)) ++ cut := by
      rw [List.cons_append, List.append_assoc, hcut]
    have hl : s.toList.length - (cutName s.toList).1.length = cut.length := by
      have := congrArg List.length hcut
      rw [List.length_append] at this
      omega
    rw [hl, whole, List.length_append, Nat.add_sub_cancel, List.take_left]
  refine ⟨front, behind, hsteps, ?_⟩
  unfold Path.withExtension
  rw [fileName?_of_components h]
  simp only [upToName, kept]
  split <;> simp_all

theorem isName_withExtension {stem : List Char} {e : String} (hs : '/' ∉ stem)
    (he : '/' ∉ e.toList) (long : 1 < e.toList.length) :
    IsName (String.ofList (stem ++ '.' :: e.toList)) := by
  refine ⟨fun h => ?_, by simpa using ⟨hs, he⟩, fun h => ?_, fun h => ?_⟩
  · simpa using congrArg String.toList h
  · have := congrArg (fun t : String => t.toList.length) h
    simp at this
    omega
  · have := congrArg (fun t : String => t.toList.length) h
    simp at this
    omega

/-- A new extension changes the last name, and makes `..` of a name whose stem is a dot. -/
theorem components_withExtension {p : Path} {before : List Component} {s e : String}
    (h : p.components = .root :: before ++ [.name s]) (he : '/' ∉ e.toList)
    (long : 1 < e.toList.length) :
    (p.withExtension e).components = .root :: before ++
      [if (cutName s.toList).1 = ['.'] && p.tailLength = 0 then .up
        else .name (String.ofList ((cutName s.toList).1 ++ '.' :: e.toList))] := by
  obtain ⟨front, behind, hsteps, eq⟩ := withExtension_eq e h
  have hn : e.toList.isEmpty = false := by
    cases hl : e.toList with
    | nil => simp [hl] at long
    | cons c cs => rfl
  have reads : ∀ t : List Char, ∀ c, steps t = [c] →
      (ofChars ('/' :: (front ++ t))).components = .root :: before ++ [c] := by
    intro t c ht
    rw [components_absolute (chars_ofChars _), steps_behind behind, hsteps, ht]
    rfl
  have isName : IsName s :=
    isName_of_mem_components (isAbsolute_iff_components.mpr ⟨_, h⟩) (by simp [h])
  rw [eq]
  split
  · rename_i hstem
    have hd : (cutName s.toList).1 = ['.'] := by simp_all
    rw [hd, List.cons_append, List.append_assoc]
    exact reads ['.', '.'] .up rfl
  · have hname : IsName (String.ofList ((cutName s.toList).1 ++ '.' :: e.toList)) :=
      isName_withExtension (fun mem => isName.2.1 ((cutName_initial _).subset mem)) he long
    rw [hn, if_neg (by simp), List.cons_append, List.append_assoc]
    exact reads _ _ (by simpa using steps_name hname)

theorem fileName?_withExtension {p : Path} {e t : String} (ha : p.isAbsolute = true)
    (he : '/' ∉ e.toList) (long : 1 < e.toList.length)
    (h : (p.withExtension e).fileName? = some t) : '.' :: e.toList <:+ t.toList := by
  cases name : p.fileName? with
  | none => simp [Path.withExtension, name] at h
  | some s =>
    obtain ⟨before, hc⟩ := components_of_fileName? ha name
    rw [Path.fileName?, components_withExtension hc he long, List.getLast?_append] at h
    by_cases dot : ((cutName s.toList).1 = ['.'] && p.tailLength = 0) = true
    · rw [if_pos dot] at h
      simp at h
    · rw [if_neg dot] at h
      have named : String.ofList ((cutName s.toList).1 ++ '.' :: e.toList) = t := by simpa using h
      rw [← named, String.toList_ofList]
      exact List.suffix_append _ _

theorem LeadsTo.withExtension {p : Path} {a : Place} {s e : String} (h : p.LeadsTo (a ++ [s]))
    (he : '/' ∉ e.toList) (long : 1 < e.toList.length) :
    (∃ t, (p.withExtension e).LeadsTo (a ++ [t])) ∨
      (p.withExtension e).components = .root :: a.map .name ++ [.up] := by
  have whole := components_withExtension
    (show p.components = .root :: a.map .name ++ [.name s] by simpa [LeadsTo] using h) he long
  split at whole
  · exact .inr whole
  · exact .inl ⟨_, by simpa [LeadsTo] using whole⟩

theorem LeadsTo.withExtension_stem {p : Path} {a : Place} {s e : String}
    (h : p.LeadsTo (a ++ [s])) (he : '/' ∉ e.toList) (long : 1 < e.toList.length)
    (solid : (cutName s.toList).1 ≠ ['.']) : (p.withExtension e).LeadsTo
      (a ++ [String.ofList ((cutName s.toList).1 ++ '.' :: e.toList)]) := by
  have whole := components_withExtension
    (show p.components = .root :: a.map .name ++ [.name s] by simpa [LeadsTo] using h) he long
  simp only [solid, decide_false, Bool.false_and, Bool.false_eq_true, if_false] at whole
  simpa [LeadsTo] using whole

theorem withExtension_isAbsolute {p : Path} (h : p.isAbsolute = true) (e : String) :
    (p.withExtension e).isAbsolute = true := by
  cases named : p.fileName? with
  | none => simp [Path.withExtension, named, h]
  | some s =>
    obtain ⟨before, hc⟩ := components_of_fileName? h named
    obtain ⟨front, -, -, eq⟩ := withExtension_eq e hc
    rw [eq]
    exact isAbsolute_iff.mpr ⟨_, chars_ofChars _⟩

end Path

end SchemaLoom
