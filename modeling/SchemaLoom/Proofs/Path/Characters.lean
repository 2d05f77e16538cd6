import SchemaLoom.Proofs.Path.Relative
import SchemaLoom.Reference

/-!
# The characters of cut paths

Apart from slashes and dots, a path that is cut out of another one has no characters of its own. So
the name of a template and the reference to it are written with characters of its path.
-/

namespace SchemaLoom

variable {c : Char}

namespace Path

variable {p q : Path}

theorem split_subset (p : Path) : p.split.2 ⊆ p.pieces := by
  intro piece member
  unfold split at member
  split at member
  · rename_i first rest eq
    rw [eq]
    split at member
    · exact List.mem_cons_of_mem _ member
    · split at member
      · exact List.mem_cons_of_mem _ member
      · exact member
  · cases member

theorem mem_of_unsplit (slash : c ≠ '/') (dot : c ≠ '.') {front : Option Component}
    {pieces : List (List Char)} (cut : pieces ⊆ p.split.2)
    (member : c ∈ (unsplit front pieces).chars) : c ∈ p.chars := by
  have joined : c ∈ Text.joinWith ['/'] pieces → c ∈ p.chars := fun inside => by
    rcases Text.mem_joinWith inside with eq | ⟨piece, found, inside⟩
    · exact absurd eq slash
    · exact Text.mem_of_mem_splitOn (split_subset p (cut found)) inside
  unfold unsplit at member
  split at member
  all_goals
    simp only [chars_ofChars, List.mem_cons, slash, dot, List.not_mem_nil, or_false, false_or]
      at member
  all_goals exact joined member

theorem mem_of_parent? (slash : c ≠ '/') (dot : c ≠ '.') (h : p.parent? = some q)
    (member : c ∈ q.chars) : c ∈ p.chars := by
  unfold parent? at h
  split at h
  · split at h
    · rw [← Option.some.inj h, chars_ofChars] at member
      cases member
    · cases h
  · rename_i first pieces eq
    rw [← Option.some.inj h] at member
    refine mem_of_unsplit slash dot (fun x inside => mem_dropVoidEnd ?_) member
    exact eq ▸ (List.dropLast_sublist _).subset (mem_dropVoidEnd inside)

theorem mem_of_below? {base : Path} (slash : c ≠ '/') (dot : c ≠ '.') (h : p.below? base = some q)
    (member : c ∈ q.chars) : c ∈ p.chars := by
  unfold below? at h
  split at h
  · split at h <;> rename_i eq <;> rw [← Option.some.inj h] at member
    · exact mem_of_unsplit slash dot (fun x inside => eq ▸ mem_dropVoidEnd inside) member
    · exact mem_of_unsplit slash dot (fun x inside => eq ▸ mem_dropNames inside) member
    · exact mem_of_unsplit slash dot (fun x inside => eq ▸ mem_dropNames inside) member
  · cases h

theorem mem_of_clean (slash : c ≠ '/') (member : c ∈ p.clean.toList) : c ∈ p.chars := by
  simp only [clean, String.toList_ofList, List.mem_map] at member
  obtain ⟨d, inside, eq⟩ := member
  split at eq
  · exact absurd eq.symm slash
  · exact eq ▸ inside

theorem mem_of_fileName? {s : String} (h : p.fileName? = some s) (member : c ∈ s.toList) :
    c ∈ p.chars := by
  unfold fileName? at h
  split at h
  · rename_i name last
    obtain rfl := Option.some.inj h
    have inside : Component.name name ∈ p.components := List.mem_of_getLast? last
    obtain ⟨front, whole, fronts⟩ := p.components_eq
    rw [whole, List.mem_append] at inside
    rcases inside with inside | inside
    · rcases fronts with ⟨-, rfl⟩ | ⟨-, rfl | rfl⟩ <;> simp at inside
    · obtain ⟨piece, found, named⟩ := List.mem_filterMap.mp inside
      exact Text.mem_of_mem_splitOn found (eq_toList_of_ofPiece? named ▸ member)
  · cases h

theorem mem_of_stem? {s : String} (h : p.stem? = some s) (member : c ∈ s.toList) :
    c ∈ p.chars := by
  obtain ⟨name, named, rfl⟩ := Option.map_eq_some_iff.mp h
  rw [String.toList_ofList] at member
  exact mem_of_fileName? named ((cutName_initial _).subset member)

theorem mem_of_stem (member : c ∈ p.stem.toList) : c ∈ p.chars := by
  cases h : p.stem? with
  | none => simp [stem, h] at member
  | some s =>
    rw [stem, h, Option.getD_some] at member
    exact mem_of_stem? h member

end Path

/-- The reference to a template is written with characters of its path. -/
theorem Reference.mem_of_ofFile? {l : Layout} {file : Path} {r : Reference} (slash : c ≠ '/')
    (dot : c ≠ '.') (h : ofFile? l file = some r) (member : c ∈ r.nameSpace ∨ c ∈ r.path) :
    c ∈ file.chars := by
  unfold ofFile? at h
  split at h
  · cases h
  · rename_i relative below
    refine Path.mem_of_below? slash dot below ?_
    split at h
    · cases h
    · rename_i stem named
      have path : c ∈ stem.toList → c ∈ relative.chars := Path.mem_of_stem? named
      split at h
      · rename_i parent around
        split at h <;> obtain rfl := Option.some.inj h
        · exact path (by simpa using member)
        · rcases member with inside | inside
          · exact Path.mem_of_parent? slash dot around (Path.mem_of_clean slash inside)
          · exact path inside
      · obtain rfl := Option.some.inj h
        exact path (by simpa using member)

end SchemaLoom
