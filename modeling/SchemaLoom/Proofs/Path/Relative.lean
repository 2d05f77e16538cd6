import SchemaLoom.Proofs.Path.Places

/-!
# Paths from a directory to another place

The path from a directory to another place is made of steps: up to the directory that both share,
and down from there. Joined to the directory and resolved it leads to the place, wherever the two
are.
-/

namespace SchemaLoom

namespace Text

variable {separator c : Char}

theorem mem_joinWith {pieces : List (List Char)} (h : c ∈ joinWith [separator] pieces) :
    c = separator ∨ ∃ piece ∈ pieces, c ∈ piece := by
  induction pieces with
  | nil => simp [joinWith] at h
  | cons piece pieces ih =>
    by_cases last : pieces = []
    · subst last
      exact .inr ⟨piece, List.mem_cons_self, h⟩
    · rw [joinWith_cons _ last] at h
      rcases List.mem_append.mp h with mem | mem
      · exact .inr ⟨piece, List.mem_cons_self, mem⟩
      · rcases List.mem_cons.mp mem with rfl | mem
        · exact .inl rfl
        · rcases ih mem with eq | ⟨piece, found, inside⟩
          · exact .inl eq
          · exact .inr ⟨piece, List.mem_cons_of_mem _ found, inside⟩

theorem mem_joinWith_of_mem {pieces : List (List Char)} {piece : List Char} (found : piece ∈ pieces)
    (inside : c ∈ piece) : c ∈ joinWith [separator] pieces := by
  induction pieces with
  | nil => simp at found
  | cons first pieces ih =>
    by_cases last : pieces = []
    · subst last
      obtain rfl := List.mem_singleton.mp found
      exact inside
    · rw [joinWith_cons _ last]
      rcases List.mem_cons.mp found with rfl | found
      · exact List.mem_append_left _ inside
      · exact List.mem_append_right _ (List.mem_cons_of_mem _ (ih found))

theorem mem_of_mem_splitOn {cs piece : List Char} (found : piece ∈ splitOn separator cs)
    (inside : c ∈ piece) : c ∈ cs := by
  rw [← @joinWith_splitOn separator cs]
  exact mem_joinWith_of_mem found inside

end Text

open FileSystem

namespace Path

/-- A component that may stand inside a path. -/
def IsStep (c : Component) : Prop := c = .up ∨ ∃ s, IsName s ∧ c = .name s

theorem IsStep.ofPiece? {c : Component} (h : IsStep c) :
    Component.ofPiece? c.path.chars = some c := by
  rcases h with rfl | ⟨s, hs, rfl⟩
  · decide
  · exact hs.ofPiece?

theorem IsStep.free {c : Component} (h : IsStep c) : '/' ∉ c.path.chars := by
  rcases h with rfl | ⟨s, hs, rfl⟩
  · decide
  · exact hs.2.1

theorem IsStep.ne_nil {c : Component} (h : IsStep c) : c.path.chars ≠ [] := by
  rcases h with rfl | ⟨s, hs, rfl⟩
  · decide
  · exact fun empty => hs.1 (toList_eq_iff.mp empty)

theorem IsStep.isAbsolute {c : Component} (h : IsStep c) : c.path.isAbsolute = false := by
  rcases h with rfl | ⟨s, hs, rfl⟩
  · decide
  · exact hs.isAbsolute

/-! ## Paths made of steps -/

theorem joinWith_getLast? {pieces : List (List Char)} (some_ : pieces ≠ [])
    (free : ∀ piece ∈ pieces, '/' ∉ piece) (nonempty : ∀ piece ∈ pieces, piece ≠ []) :
    Text.joinWith ['/'] pieces ≠ [] ∧ (Text.joinWith ['/'] pieces).getLast? ≠ some '/' := by
  rcases List.eq_nil_or_concat pieces with rfl | ⟨init, last, rfl⟩
  · exact absurd rfl some_
  · rw [List.concat_eq_append] at *
    have solid := nonempty last (by simp)
    obtain ⟨front, eq, -, -⟩ := joinWith_concat init last fun piece mem =>
      free piece (List.mem_append_left _ mem)
    rw [eq]
    constructor
    · simp [solid]
    · rw [List.getLast?_append_of_ne_nil _ solid]
      exact fun slash => free last (by simp) (List.mem_of_getLast? slash)

theorem ofComponents_concat (components : List Component) (c : Component) :
    ofComponents (components ++ [c]) = (ofComponents components).join c.path := by
  simp [ofComponents]

section

variable {components : List Component} (steps : ∀ c ∈ components, IsStep c)
include steps

theorem pieces_free : ∀ piece ∈ components.map (·.path.chars), '/' ∉ piece := by
  intro piece mem
  obtain ⟨c, hc, rfl⟩ := List.mem_map.mp mem
  exact (steps c hc).free

theorem pieces_ne_nil : ∀ piece ∈ components.map (·.path.chars), piece ≠ [] := by
  intro piece mem
  obtain ⟨c, hc, rfl⟩ := List.mem_map.mp mem
  exact (steps c hc).ne_nil

theorem chars_ofComponents :
    (ofComponents components).chars = Text.joinWith ['/'] (components.map (·.path.chars)) := by
  induction components using List.reverseRecOn with
  | nil => simp [ofComponents, Text.joinWith]
  | append_singleton components c ih =>
    have front : ∀ d ∈ components, IsStep d := fun d mem => steps d (List.mem_append_left _ mem)
    have relative := (steps c (by simp)).isAbsolute
    rw [ofComponents_concat, List.map_append, List.map_singleton]
    unfold join
    rw [if_neg (by simp [relative]), ih front]
    by_cases empty : components = []
    · subst empty
      simp [Text.joinWith]
    · obtain ⟨solid, ends⟩ := joinWith_getLast? (by simpa using empty) (pieces_free front)
        (pieces_ne_nil front)
      rw [if_neg (by simp [solid, ends]), chars_ofChars,
        Text.joinWith_append (by simpa using empty) (by simp)]
      rfl

theorem filterMap_pieces :
    (components.map (·.path.chars)).filterMap Component.ofPiece? = components := by
  rw [List.filterMap_map]
  conv_rhs => rw [← List.filterMap_some (l := components)]
  apply List.filterMap_congr
  intro c mem
  exact (steps c mem).ofPiece?

theorem steps_ofComponents : Path.steps (ofComponents components).chars = components := by
  rw [chars_ofComponents steps, steps_joinWith (pieces_free steps), filterMap_pieces steps]

theorem isAbsolute_ofComponents : (ofComponents components).isAbsolute = false := by
  rw [← ofChars_chars (ofComponents components), chars_ofComponents steps]
  apply isAbsolute_joinWith (pieces_free steps)
  intro empty
  exact pieces_ne_nil steps [] (List.mem_of_head? empty) rfl

end

/-- An absolute path without `..` leads to a place. -/
theorem leadsTo_of_not_mem_up {p : Path} (hp : p.isAbsolute = true)
    (noUp : .up ∉ p.components) : ∃ a, p.LeadsTo a := by
  obtain ⟨cs, hcs⟩ := isAbsolute_iff.mp hp
  have components := components_absolute hcs
  have names : ∀ components : List Component, (∀ c ∈ components, ∃ s, c = .name s) →
      ∃ a : Place, components = a.map .name := by
    intro components all
    induction components with
    | nil => exact ⟨[], rfl⟩
    | cons c components ih =>
      obtain ⟨s, rfl⟩ := all c List.mem_cons_self
      obtain ⟨a, rfl⟩ := ih fun d mem => all d (List.mem_cons_of_mem _ mem)
      exact ⟨s :: a, rfl⟩
  obtain ⟨a, ha⟩ := names (Path.steps cs) (by
    intro c mem
    rcases mem_steps mem with rfl | ⟨s, -, rfl⟩
    · rw [components] at noUp
      exact absurd (List.mem_cons_of_mem _ mem) noUp
    · exact ⟨s, rfl⟩)
  exact ⟨a, components.trans (by rw [ha])⟩

/-! ## What two lists share -/

theorem take_commonLength (a b : List Component) :
    a.take (commonLength a b) = b.take (commonLength a b) := by
  fun_induction commonLength a b with
  | case1 c a b ih => simp [ih]
  | case2 => simp
  | case3 => simp

/-- No longer beginning is shared. -/
theorem length_le_commonLength {a b front : List Component} (ha : front <+: a) (hb : front <+: b) :
    front.length ≤ commonLength a b := by
  fun_induction commonLength a b generalizing front with
  | case1 c a b ih =>
    cases front with
    | nil => exact Nat.zero_le _
    | cons d front =>
      rw [List.cons_prefix_cons] at ha hb
      exact Nat.succ_le_succ (ih ha.2 hb.2)
  | case2 c a d b differ =>
    cases front with
    | nil => exact Nat.le_refl 0
    | cons e front =>
      rw [List.cons_prefix_cons] at ha hb
      exact absurd (ha.1.symm.trans hb.1) differ
  | case3 a b ends =>
    cases front with
    | nil => exact Nat.le_refl 0
    | cons e front =>
      obtain ⟨as, rfl⟩ := ha
      obtain ⟨bs, rfl⟩ := hb
      exact (ends e (front ++ as) e (front ++ bs) rfl rfl).elim

/-! ## Resolving -/

variable {a b : Place}

theorem foldl_names (h : ValidPlace (a ++ b)) :
    (b.map Component.name).foldl resolveStep (pathOf a) = pathOf (a ++ b) := by
  induction b using List.reverseRecOn with
  | nil => simp
  | append_singleton b s ih =>
    rw [← List.append_assoc] at h
    rw [List.map_append, List.foldl_append, ih h.left, List.map_singleton, List.foldl_cons,
      List.foldl_nil, ← List.append_assoc]
    exact pathOf_join h.left h.last

theorem foldl_ups (h : ValidPlace (a ++ b)) :
    (List.replicate b.length Component.up).foldl resolveStep (pathOf (a ++ b)) = pathOf a := by
  induction b using List.reverseRecOn with
  | nil => simp
  | append_singleton b s ih =>
    rw [← List.append_assoc] at h
    have parent : resolveStep (pathOf (a ++ b ++ [s])) .up = pathOf (a ++ b) := by
      simp only [resolveStep, parent?_pathOf h]
    rw [List.length_append, List.length_singleton, List.replicate_succ, List.foldl_cons,
      ← List.append_assoc, parent, ih h.left]

theorem resolveStep_root : resolveStep (ofChars []) .root = pathOf [] := by decide

theorem LeadsTo.normalize {p : Path} (h : p.LeadsTo a) : p.normalize = pathOf a := by
  unfold Path.normalize
  rw [h, List.foldl_cons, resolveStep_root]
  exact foldl_names (a := []) h.valid

section

variable {directory target : Path} {D : Place}

theorem mem_stepsFrom {c : Component} {a b : List Component} (h : c ∈ stepsFrom a b) :
    c = .up ∨ c ∈ b := by
  rcases List.mem_append.mp h with mem | mem
  · exact .inl (List.eq_of_mem_replicate mem)
  · exact .inr (List.mem_of_mem_drop mem)

theorem stepsFrom_root (a b : List Component) :
    stepsFrom (.root :: a) (.root :: b) = stepsFrom a b := by
  simp [stepsFrom, commonLength]

theorem isStep_stepsFrom (hd : directory.isAbsolute = true) (ht : target.isAbsolute = true) :
    ∀ c ∈ stepsFrom directory.components target.components, IsStep c := by
  obtain ⟨ds, hds⟩ := isAbsolute_iff.mp hd
  obtain ⟨cs, hcs⟩ := isAbsolute_iff.mp ht
  rw [components_absolute hds, components_absolute hcs, stepsFrom_root]
  intro c mem
  rcases mem_stepsFrom mem with up | mem
  · exact .inl up
  · exact mem_steps mem

theorem components_join_relativeTo (hd : directory.isAbsolute = true)
    (ht : target.isAbsolute = true) : (directory.join (target.relativeTo directory)).components =
      directory.components ++ stepsFrom directory.components target.components := by
  have steps := isStep_stepsFrom hd ht
  unfold relativeTo
  rw [components_join hd (isAbsolute_ofComponents steps), steps_ofComponents steps]

/-- From every directory the path to a place leads to that place. -/
theorem normalize_join_relativeTo (hd : directory.LeadsTo D) (ht : target.isAbsolute = true) :
    (directory.join (target.relativeTo directory)).normalize = target.normalize := by
  obtain ⟨cs, hcs⟩ := isAbsolute_iff.mp ht
  have components := components_absolute hcs
  have joined := components_join_relativeTo hd.isAbsolute ht
  generalize hn : commonLength (D.map .name) (Path.steps cs) = n
  have way : stepsFrom directory.components target.components =
      List.replicate (D.drop n).length .up ++ (Path.steps cs).drop n := by
    rw [hd, components, stepsFrom_root]
    simp [stepsFrom, hn]
  have same : (D.take n).map Component.name = (Path.steps cs).take n := by
    rw [List.map_take, ← hn]
    exact take_commonLength _ _
  have valid : ValidPlace (D.take n ++ D.drop n) := by
    rw [List.take_append_drop]
    exact hd.valid
  -- Both lead to the directory that is shared, and go on in the same way.
  have first : (directory.join (target.relativeTo directory)).normalize =
      ((Path.steps cs).drop n).foldl resolveStep (pathOf (D.take n)) := by
    have here : directory.components.foldl resolveStep (ofChars []) = pathOf D := hd.normalize
    have ups := foldl_ups valid
    rw [List.take_append_drop] at ups
    unfold Path.normalize
    rw [joined, way, List.foldl_append, List.foldl_append, here, ups]
  have second : target.normalize =
      ((Path.steps cs).drop n).foldl resolveStep (pathOf (D.take n)) := by
    have split : Path.steps cs = (D.take n).map Component.name ++ (Path.steps cs).drop n := by
      rw [same, List.take_append_drop]
    unfold Path.normalize
    rw [components, List.foldl_cons, resolveStep_root]
    conv_lhs => rw [split]
    rw [List.foldl_append, foldl_names (a := []) valid.left, List.nil_append]
  rw [first, second]

end

/-! ## Below another path -/

theorem filterMap_dropNames (n : Nat) (pieces : List (List Char)) :
    (dropNames n pieces).filterMap Component.ofPiece? =
      (pieces.filterMap Component.ofPiece?).drop n := by
  fun_induction dropNames n pieces with
  | case1 => simp
  | case2 piece pieces void ih => rw [ih, List.filterMap_cons, ofPiece?_eq_none_iff.mpr void]
  | case3 piece pieces solid => rw [filterMap_dropVoidEnd, List.drop_zero]
  | case4 n piece pieces void ih =>
    rw [ih, List.filterMap_cons, ofPiece?_eq_none_iff.mpr void]
  | case5 n piece pieces solid ih =>
    cases hc : Component.ofPiece? piece with
    | none => exact absurd (ofPiece?_eq_none_iff.mp hc) solid
    | some c => rw [ih, List.filterMap_cons, hc, List.drop_succ_cons]

theorem mem_dropNames {n : Nat} {pieces : List (List Char)} {piece : List Char}
    (h : piece ∈ dropNames n pieces) : piece ∈ pieces := by
  fun_induction dropNames n pieces with
  | case1 => exact h
  | case2 first pieces void ih => exact List.mem_cons_of_mem _ (ih h)
  | case3 first pieces solid => exact mem_dropVoidEnd h
  | case4 n first pieces void ih => exact List.mem_cons_of_mem _ (ih h)
  | case5 n first pieces solid ih => exact List.mem_cons_of_mem _ (ih h)

theorem head?_dropNames (n : Nat) (pieces : List (List Char)) :
    (dropNames n pieces).head? ≠ some [] := by
  fun_induction dropNames n pieces with
  | case1 => simp
  | case2 first pieces void ih => exact ih
  | case3 first pieces solid =>
    intro empty
    obtain ⟨behind, whole⟩ := List.rdropWhile_prefix isVoid (first :: pieces)
    rw [dropVoidEnd_eq, List.head?_eq_some_iff] at empty
    obtain ⟨others, eq⟩ := empty
    rw [eq, List.cons_append] at whole
    rw [← (List.cons.inj whole).1] at solid
    exact solid rfl
  | case4 n first pieces void ih => exact ih
  | case5 n first pieces solid ih => exact ih

/-- What stands behind the components of another path. -/
theorem below?_eq_some {p base : Path} {rest : List Component} (hb : base.isAbsolute = true)
    (h : p.components = base.components ++ rest) :
    ∃ q, p.below? base = some q ∧ q.isAbsolute = false ∧ Path.steps q.chars = rest ∧
      ∀ c ∈ q.chars, c ∈ p.chars := by
  obtain ⟨bs, hbs⟩ := isAbsolute_iff.mp hb
  have base_eq := components_absolute hbs
  have hp : p.isAbsolute = true := isAbsolute_iff_components.mpr ⟨_, by rw [h, base_eq]; rfl⟩
  obtain ⟨cs, hcs⟩ := isAbsolute_iff.mp hp
  have begins : p.startsWith base = true := startsWith_iff.mpr ⟨rest, h.symm⟩
  have free : ∀ piece ∈ dropNames (Path.steps bs).length (Text.splitOn '/' cs), '/' ∉ piece :=
    fun piece mem => Text.not_mem_of_mem_splitOn (mem_dropNames mem)
  refine ⟨ofChars (Text.joinWith ['/'] (dropNames (Path.steps bs).length (Text.splitOn '/' cs))),
    ?_, isAbsolute_joinWith free (head?_dropNames _ _), ?_, ?_⟩
  · unfold below?
    rw [if_pos begins, base_eq, List.length_cons, split_absolute hcs]
    rfl
  · rw [components_absolute hcs, base_eq] at h
    rw [chars_ofChars, steps_joinWith free, filterMap_dropNames]
    change (Path.steps cs).drop _ = rest
    have split : Path.steps cs = Path.steps bs ++ rest := (List.cons.inj h).2
    rw [split, List.drop_left]
  · intro c mem
    rw [chars_ofChars] at mem
    rw [hcs]
    rcases Text.mem_joinWith mem with rfl | ⟨piece, found, inside⟩
    · exact List.mem_cons_self
    · exact List.mem_cons_of_mem _ (Text.mem_of_mem_splitOn (mem_dropNames found) inside)

/-! ## Characters -/

section

variable {p q : Path} {c : Char}

theorem mem_of_name {s : String} (hp : p.isAbsolute = true) (found : .name s ∈ p.components)
    (inside : c ∈ s.toList) : c ∈ p.chars := by
  obtain ⟨cs, hcs⟩ := isAbsolute_iff.mp hp
  rw [components_absolute hcs] at found
  rcases List.mem_cons.mp found with he | found
  · simp at he
  · obtain ⟨piece, mem, hpiece⟩ := List.mem_filterMap.mp found
    rw [hcs, ← @Text.joinWith_splitOn '/' cs]
    refine List.mem_cons_of_mem _ (Text.mem_joinWith_of_mem mem ?_)
    rw [eq_toList_of_ofPiece? hpiece]
    exact inside

theorem mem_join (h : c ∈ (p.join q).chars) : c ∈ p.chars ∨ c = '/' ∨ c ∈ q.chars := by
  unfold join at h
  split at h
  · exact .inr (.inr h)
  · split at h
    · rw [chars_ofChars] at h
      exact (List.mem_append.mp h).imp_right .inr
    · rw [chars_ofChars] at h
      exact (List.mem_append.mp h).imp_right fun mem => (List.mem_cons.mp mem)

theorem mem_withExtension {e : String} (h : c ∈ (p.withExtension e).chars) :
    c ∈ p.chars ∨ c = '.' ∨ c ∈ e.toList := by
  unfold withExtension at h
  split at h
  · exact .inl h
  · simp only at h
    split at h
    · rw [chars_ofChars] at h
      rcases List.mem_append.mp h with mem | mem
      · exact .inl (List.mem_of_mem_take (List.mem_of_mem_take mem))
      · exact .inr (.inl (List.mem_singleton.mp mem))
    · rw [chars_ofChars] at h
      rcases List.mem_append.mp h with mem | mem
      · exact .inl (List.mem_of_mem_take (List.mem_of_mem_take mem))
      · split at mem
        · simp at mem
        · exact .inr (List.mem_cons.mp mem)

theorem mem_relativeTo (hp : p.isAbsolute = true) (hq : q.isAbsolute = true)
    (h : c ∈ (p.relativeTo q).chars) : c = '/' ∨ c = '.' ∨ c ∈ p.chars := by
  have steps := isStep_stepsFrom hq hp
  unfold relativeTo at h
  rw [chars_ofComponents steps] at h
  rcases Text.mem_joinWith h with slash | ⟨piece, found, inside⟩
  · exact .inl slash
  · obtain ⟨step, mem, rfl⟩ := List.mem_map.mp found
    rcases steps step mem with rfl | ⟨s, hs, rfl⟩
    · have dots : c ∈ ['.', '.'] := inside
      exact .inr (.inl (by simpa using dots))
    · rcases mem_stepsFrom mem with he | mem
      · simp at he
      · exact .inr (.inr (mem_of_name hp mem inside))

theorem clean_eq (h : '\\' ∉ p.chars) : p.clean = p.text := by
  have same : p.chars.map (fun c => if c = '\\' then '/' else c) = p.chars := by
    conv_rhs => rw [← List.map_id p.chars]
    apply List.map_congr_left
    intro c mem
    rw [if_neg (fun he : c = '\\' => h (he ▸ mem))]
    rfl
  rw [clean, same]
  simp [chars]

end

end Path

end SchemaLoom
