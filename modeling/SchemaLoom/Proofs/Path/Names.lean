import SchemaLoom.Proofs.Path.Lexical

/-!
# Names and the extensions in them

A name with an extension is its stem, a dot and the extension. Resolving a path only takes
components away, so the names of what is reached stand in the path in their order; and a text from
which pieces are taken gets shorter.
-/

namespace SchemaLoom

namespace Text

variable {separator : Char} {a b : List (List Char)}

/-- The length of pieces with a separator behind each. -/
def spread : List (List Char) → Nat
  | [] => 0
  | piece :: pieces => piece.length + 1 + spread pieces

theorem spread_append (a b : List (List Char)) : spread (a ++ b) = spread a + spread b := by
  induction a with
  | nil => exact (Nat.zero_add _).symm
  | cons piece a ih =>
    rw [List.cons_append, spread, spread, ih]
    omega

theorem length_joinWith {pieces : List (List Char)} (h : pieces ≠ []) :
    (joinWith [separator] pieces).length + 1 = spread pieces := by
  induction pieces with
  | nil => exact absurd rfl h
  | cons piece pieces ih =>
    by_cases last : pieces = []
    · subst last
      rfl
    · have rest := ih last
      rw [joinWith_cons _ last, spread]
      simp only [List.length_append, List.length_cons]
      omega

theorem length_joinWith_concat (front : List (List Char)) (piece : List Char) :
    (joinWith [separator] (front ++ [piece])).length = spread front + piece.length := by
  have whole := @length_joinWith separator (front ++ [piece]) (by simp)
  rw [spread_append, spread, spread] at whole
  omega

theorem spread_le_of_sublist (h : a.Sublist b) : spread a ≤ spread b := by
  induction h with
  | slnil => exact Nat.le_refl _
  | cons piece _ ih =>
    rw [spread]
    omega
  | cons_cons piece _ ih =>
    rw [spread, spread]
    omega

theorem eq_of_sublist_of_spread_le (h : a.Sublist b) (long : spread b ≤ spread a) : a = b := by
  induction h with
  | slnil => rfl
  | cons piece sub _ =>
    have le := spread_le_of_sublist sub
    rw [spread] at long
    omega
  | cons_cons piece _ ih =>
    rw [spread, spread] at long
    rw [ih (by omega)]

theorem eq_of_sublist_of_length_le (h : a.Sublist b) (nonempty : a ≠ [])
    (long : (joinWith [separator] b).length ≤ (joinWith [separator] a).length) : a = b := by
  have nonempty' : b ≠ [] := by
    rintro rfl
    exact nonempty (List.sublist_nil.mp h)
  have left := @length_joinWith separator a nonempty
  have right := @length_joinWith separator b nonempty'
  exact eq_of_sublist_of_spread_le h (by omega)

theorem length_joinWith_le_of_sublist (h : a.Sublist b) (nonempty : a ≠ []) :
    (joinWith [separator] a).length ≤ (joinWith [separator] b).length := by
  have nonempty' : b ≠ [] := by
    rintro rfl
    exact nonempty (List.sublist_nil.mp h)
  have left := @length_joinWith separator a nonempty
  have right := @length_joinWith separator b nonempty'
  have shorter := spread_le_of_sublist h
  omega

theorem splitOnce_of_not_mem {cs : List Char} (h : separator ∉ cs) :
    splitOnce separator cs = (cs, none) := by
  induction cs with
  | nil => rfl
  | cons c cs ih =>
    have different : c ≠ separator := fun he => h (he ▸ List.mem_cons_self)
    rw [splitOnce, if_neg different, ih fun mem => h (List.mem_cons_of_mem _ mem)]

end Text

open FileSystem

namespace Path

/-! ## Stems and extensions -/

theorem cutName_extended {stem e : List Char} (nonempty : stem ≠ []) (he : '.' ∉ e) :
    cutName (stem ++ '.' :: e) = (stem, some e) := by
  have text : (stem ++ '.' :: e).reverse = e.reverse ++ '.' :: stem.reverse := by simp
  have extension : ((stem ++ '.' :: e).reverse.takeWhile (· ≠ '.')).reverse = e := by
    rw [text, List.takeWhile_append_of_pos]
    · simp
    · intro c mem
      have different : c ≠ '.' := fun dot => he (dot ▸ List.mem_reverse.mp mem)
      simpa using different
  have long : e.length ≠ (stem ++ '.' :: e).length := by
    rw [List.length_append, List.length_cons]
    omega
  have cut : (stem ++ '.' :: e).length - e.length - 1 = stem.length := by
    rw [List.length_append, List.length_cons]
    omega
  have solid : stem.isEmpty = false := by simpa using nonempty
  unfold cutName
  simp only [extension, if_neg long, cut, List.take_left, solid]
  rfl

theorem cutName_ne_nil {name : List Char} (nonempty : name ≠ []) : (cutName name).1 ≠ [] := by
  unfold cutName
  simp only
  split
  · exact nonempty
  · split
    · exact nonempty
    · rename_i solid
      simpa using solid

theorem eq_of_cutName {name stem e : List Char} (h : cutName name = (stem, some e)) :
    name = stem ++ '.' :: e ∧ stem ≠ [] ∧ '.' ∉ e := by
  have whole := List.takeWhile_append_dropWhile (p := (· ≠ '.')) (l := name.reverse)
  unfold cutName at h
  simp only at h
  generalize taken : name.reverse.takeWhile (· ≠ '.') = extension at h whole
  have free : '.' ∉ extension := by
    intro mem
    rw [← taken] at mem
    simpa using List.mem_takeWhile_imp mem
  cases dropped : name.reverse.dropWhile (· ≠ '.') with
  | nil =>
    rw [dropped, List.append_nil] at whole
    rw [whole] at h
    simp at h
  | cons c behind =>
    obtain rfl : c = '.' := by
      have stops := List.head?_dropWhile_not (fun c => decide (c ≠ '.')) name.reverse
      rw [dropped] at stops
      simpa using stops
    rw [dropped] at whole
    have text : name = behind.reverse ++ '.' :: extension.reverse := by
      rw [← List.reverse_reverse name, ← whole]
      simp
    have long : extension.reverse.length ≠ name.length := by
      rw [text, List.length_append, List.length_cons]
      omega
    have cut : name.length - extension.reverse.length - 1 = behind.reverse.length := by
      rw [text, List.length_append, List.length_cons]
      omega
    rw [if_neg long, cut, text, List.take_left] at h
    split at h
    · simp at h
    · rename_i solid
      simp only [Prod.mk.injEq, Option.some.injEq] at h
      obtain ⟨rfl, rfl⟩ := h
      exact ⟨text, by simpa using solid, by simpa using free⟩

/-- A name with an extension. -/
def nameWith (stem e : String) : String := String.ofList (stem.toList ++ '.' :: e.toList)

theorem not_mem_templateExtension {e : String} (h : e ∈ templateExtensions) :
    '.' ∉ e.toList ∧ '/' ∉ e.toList ∧ '\\' ∉ e.toList ∧ 1 < e.toList.length := by
  have known : e = "yml" ∨ e = "yaml" ∨ e = "json" := by simpa [templateExtensions] using h
  rcases known with rfl | rfl | rfl <;> decide

theorem length_nameWith (stem e : String) :
    (nameWith stem e).toList.length = stem.toList.length + e.toList.length + 1 := by
  rw [nameWith, String.toList_ofList, List.length_append, List.length_cons, Nat.add_assoc]

section

variable {stem e : String} (known : e ∈ templateExtensions)
include known

theorem cutName_nameWith (nonempty : stem ≠ "") :
    cutName (nameWith stem e).toList = (stem.toList, some e.toList) := by
  have solid : stem.toList ≠ [] := fun empty => nonempty (toList_eq_iff.mp empty)
  rw [nameWith, String.toList_ofList, cutName_extended solid (not_mem_templateExtension known).1]

theorem isName_nameWith (free : '/' ∉ stem.toList) : IsName (nameWith stem e) :=
  isName_withExtension free (not_mem_templateExtension known).2.1
    (not_mem_templateExtension known).2.2.2

theorem backslash_not_mem_nameWith (free : '\\' ∉ stem.toList) :
    '\\' ∉ (nameWith stem e).toList := by
  rw [nameWith, String.toList_ofList]
  intro mem
  rcases List.mem_append.mp mem with mem | mem
  · exact free mem
  · rcases List.mem_cons.mp mem with dot | mem
    · exact absurd dot (by decide)
    · exact (not_mem_templateExtension known).2.2.1 mem

end

/-- The names of templates. -/
theorem isTemplate_iff {p : Path} {s : String} (h : p.fileName? = some s) :
    p.isTemplate = true ↔ ∃ e ∈ templateExtensions, ∃ stem ≠ "", s = nameWith stem e := by
  unfold isTemplate extension?
  rw [h, Option.bind_some]
  constructor
  · intro template
    cases cut : cutName s.toList with
    | mk stem extension =>
      cases extension with
      | none => simp [cut] at template
      | some e =>
        obtain ⟨text, solid, -⟩ := eq_of_cutName cut
        refine ⟨String.ofList e, by simpa [cut] using template, String.ofList stem, ?_, ?_⟩
        · exact fun empty => solid (by simpa using congrArg String.toList empty)
        · simpa [nameWith] using toList_eq_iff.mp text
  · rintro ⟨e, known, stem, solid, rfl⟩
    rw [cutName_nameWith known solid]
    simpa using known

theorem isTemplate_congr {p q : Path} (h : p.fileName? = q.fileName?) :
    p.isTemplate = q.isTemplate := by
  unfold isTemplate extension?
  rw [h]

/-! ## Relative paths made of names -/

section

variable {a : Place} {s : String}

theorem isStep_names (h : ValidPlace a) : ∀ c ∈ a.map Component.name, IsStep c := by
  intro c mem
  obtain ⟨s, hs, rfl⟩ := List.mem_map.mp mem
  exact .inr ⟨s, h s hs, rfl⟩

theorem ofComponents_names (h : ValidPlace a) :
    ofComponents (a.map .name) = ofChars (Text.joinWith ['/'] (a.map String.toList)) := by
  apply ext_chars
  rw [chars_ofComponents (isStep_names h), chars_ofChars, List.map_map]
  rfl

theorem split_names (h : ValidPlace a) (nonempty : a ≠ []) :
    (ofComponents (a.map .name)).split = (none, a.map String.toList) := by
  have split := split_spell (isStep_names h) (by simpa using nonempty) false
  rwa [List.map_map] at split

theorem fileName?_names (h : ValidPlace (a ++ [s])) :
    (ofComponents ((a ++ [s]).map .name)).fileName? = some s := by
  unfold Path.fileName? components
  rw [split_names h (by simp), h.filterMap]
  simp

theorem parent?_names (h : ValidPlace (a ++ [s])) :
    (ofComponents ((a ++ [s]).map .name)).parent? = some (ofComponents (a.map .name)) := by
  have steps := isStep_names h
  rw [List.map_append] at steps ⊢
  exact parent?_spell steps false

theorem ofComponents_name (h : IsName s) : ofComponents [.name s] = ⟨s⟩ :=
  (ofComponents_names (.singleton h)).trans (ofChars_chars ⟨s⟩)

theorem fileName?_name (h : IsName s) : (⟨s⟩ : Path).fileName? = some s := by
  rw [← ofComponents_name h]
  exact fileName?_names (a := []) (.singleton h)

end

/-! ## What resolving reaches -/

theorem resolveStep_sublist {p : Path} {c : Component} (hp : p.isAbsolute = true) (hc : IsStep c) :
    (resolveStep p c).isAbsolute = true ∧
      (resolveStep p c).components.Sublist (p.components ++ [c]) := by
  rcases hc with rfl | ⟨s, hs, rfl⟩
  · cases hq : p.parent? with
    | none =>
      simp only [resolveStep, hq]
      refine ⟨join_isAbsolute _ hp, ?_⟩
      have up : Path.steps Component.up.path.chars = [.up] := by decide
      rw [components_join hp rfl, up]
    | some q =>
      obtain ⟨absolute, d, whole⟩ := components_parent? hp hq
      simp only [resolveStep, hq]
      refine ⟨absolute, ?_⟩
      rw [whole, List.append_assoc]
      exact List.sublist_append_left _ _
  · refine ⟨join_isAbsolute _ hp, ?_⟩
    change (p.join ⟨s⟩).components.Sublist _
    rw [components_join_name hp hs]

theorem normalize_join_names {a b : Place} (h : ValidPlace (a ++ b)) :
    ((pathOf a).join (ofComponents (b.map .name))).normalize = pathOf (a ++ b) := by
  apply LeadsTo.normalize
  have steps := isStep_names h.right
  have base := leadsTo_pathOf h.left
  unfold LeadsTo
  rw [components_join base.isAbsolute (isAbsolute_ofComponents steps), base,
    steps_ofComponents steps, List.map_append, List.cons_append]

theorem foldl_resolveStep_sublist {components : List Component} {p : Path}
    (hp : p.isAbsolute = true) (steps : ∀ c ∈ components, IsStep c) :
    (components.foldl resolveStep p).components.Sublist (p.components ++ components) := by
  induction components generalizing p with
  | nil => simp
  | cons c components ih =>
    obtain ⟨absolute, sub⟩ := resolveStep_sublist hp (steps c List.mem_cons_self)
    have rest := ih absolute fun d mem => steps d (List.mem_cons_of_mem _ mem)
    rw [List.foldl_cons]
    refine rest.trans ?_
    rw [← List.singleton_append, ← List.append_assoc]
    exact sub.append_right components

theorem normalize_sublist {p : Path} (hp : p.isAbsolute = true) :
    p.normalize.components.Sublist p.components := by
  obtain ⟨cs, hcs⟩ := isAbsolute_iff.mp hp
  unfold Path.normalize
  rw [components_absolute hcs, List.foldl_cons, resolveStep_root]
  have root : (pathOf []).components = [.root] := by decide
  simpa [root] using foldl_resolveStep_sublist (p := pathOf []) (by decide) fun c => mem_steps

/-- What is reached below a place from there stands in the path that leads to it. -/
theorem sublist_of_normalize_join {p q : Path} {a b : Place} (hp : p.LeadsTo a)
    (hb : ValidPlace (a ++ b)) (h : (p.join q).normalize = pathOf (a ++ b)) :
    (b.map Component.name).Sublist (steps q.chars) := by
  have reached := normalize_sublist (join_isAbsolute q hp.isAbsolute)
  rw [h, leadsTo_pathOf hb, List.map_append] at reached
  have whole : (Component.root :: (a.map Component.name ++ b.map .name)).Sublist
      (.root :: (a.map .name ++ steps q.chars)) := by
    refine reached.trans ?_
    cases hq : q.isAbsolute with
    | false =>
      rw [components_join hp.isAbsolute hq, hp]
      exact List.Sublist.refl _
    | true =>
      obtain ⟨cs, hcs⟩ := isAbsolute_iff.mp hq
      have replaced : p.join q = q := by
        unfold join
        rw [if_pos hq]
      have same : steps q.chars = steps cs := by
        rw [hcs]
        exact steps_append [] cs
      rw [replaced, components_absolute hcs, same]
      exact (List.sublist_append_right _ _).cons_cons _
  exact (List.append_sublist_append_left _).mp (List.cons_sublist_cons.mp whole)

/-- The names in a path are some of its pieces. -/
theorem pieces_sublist {a : Place} {cs : List Char}
    (h : (a.map Component.name).Sublist (steps cs)) :
    (a.map String.toList).Sublist (Text.splitOn '/' cs) := by
  have texts : ((Text.splitOn '/' cs).filterMap Component.ofPiece?).map (·.path.chars) =
      (Text.splitOn '/' cs).filter fun piece => !isVoid piece := by
    rw [List.map_filterMap, ← List.filterMap_eq_filter]
    apply List.filterMap_congr
    intro piece mem
    unfold Component.ofPiece?
    cases void : isVoid piece with
    | true => simp [Option.guard, void]
    | false =>
      by_cases up : piece = ['.', '.']
      · subst up
        rfl
      · simp [up, void, Option.guard, Component.path, chars]
  have sub := h.map (·.path.chars)
  rw [steps, texts, List.map_map] at sub
  exact sub.trans List.filter_sublist

end Path

end SchemaLoom
