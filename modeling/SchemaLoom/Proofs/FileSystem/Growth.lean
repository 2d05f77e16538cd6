import SchemaLoom.Proofs.Layout

/-!
# File systems that grow

Writing outputs puts files, and the directories that they need, inside one tree; around the tree it
makes missing directories. No directory is replaced, and outside the tree nothing else changes.
-/

namespace SchemaLoom.FileSystem

variable {fs fs' fs'' : FileSystem} {place other : Place} {entry : Entry} {tree : Place}

/-! ## One entry -/

theorem lookup_store_self (place : Place) (entry : Entry) (table : List (Place × Entry)) :
    lookup place (store place entry table) = some entry := by
  induction table with
  | nil => simp [store, lookup]
  | cons e table ih =>
    obtain ⟨p, old⟩ := e
    by_cases hp : p = place
    · simp [store, lookup, hp]
    · simp [store, lookup, hp, ih]

theorem lookup_store_of_ne (h : other ≠ place) (table : List (Place × Entry)) :
    lookup other (store place entry table) = lookup other table := by
  induction table with
  | nil => simp [store, lookup, Ne.symm h]
  | cons e table ih =>
    obtain ⟨p, old⟩ := e
    by_cases hp : p = place
    · subst hp
      simp [store, lookup, Ne.symm h]
    · simp [store, lookup, hp, ih]

@[simp] theorem entry?_root (fs : FileSystem) : fs.entry? [] = some .directory := by simp [ entry?]

theorem entry?_put_self (h : place ≠ []) : entry? (fs.put place entry) place = some entry := by
  simp [ entry?, put, h, lookup_store_self]

theorem entry?_put_of_ne (h : other ≠ place) :
    entry? (fs.put place entry) other = fs.entry? other := by
  simp [ entry?, put, lookup_store_of_ne h]

theorem lookup_of_entry?_none (h : fs.entry? place = none) : lookup place fs.entries = none := by
  unfold entry? at h
  split at h
  · simp at h
  · exact h

theorem store_of_lookup_none {table : List (Place × Entry)} (h : lookup place table = none) :
    store place entry table = table ++ [(place, entry)] := by
  induction table with
  | nil => rfl
  | cons e table ih =>
    obtain ⟨p, old⟩ := e
    by_cases hp : p = place
    · simp [lookup, hp] at h
    · simp only [lookup, hp, if_false] at h
      simp [store, hp, ih h]

theorem filterMap_store {α : Type} {f : Place × Entry → Option α} (hn : ∀ e, f (place, e) = none)
    (table : List (Place × Entry)) :
    (store place entry table).filterMap f = table.filterMap f := by
  induction table with
  | nil => simp [store, hn]
  | cons e table ih =>
    obtain ⟨p, old⟩ := e
    by_cases hp : p = place
    · subst hp
      simp [store, hn]
    · simp [store, hp, List.filterMap_cons, ih]

theorem mem_entries_of_lookup {table : List (Place × Entry)} (h : lookup place table = some entry) :
    (place, entry) ∈ table := by
  induction table with
  | nil => simp [lookup] at h
  | cons e table ih =>
    obtain ⟨p, old⟩ := e
    by_cases hp : p = place
    · subst hp
      simp [lookup] at h
      simp [h]
    · simp only [lookup, hp, if_false] at h
      exact List.mem_cons_of_mem _ (ih h)

theorem mem_entries (h : fs.entry? place = some entry) (ne : place ≠ []) :
    (place, entry) ∈ fs.entries := by
  unfold entry? at h
  rw [if_neg ne] at h
  exact mem_entries_of_lookup h

/-! ## Growth -/

/-- Outputs were written into a tree. -/
inductive Grown (tree : Place) (fs : FileSystem) : FileSystem → Prop where
  | refl : Grown tree fs fs
  | file {fs' : FileSystem} {place : Place} (contents : Contents) : Grown tree fs fs' →
      fs'.entry? place ≠ some .directory → Inside tree place →
      Grown tree fs (fs'.put place (.file contents))
  | directory {fs' : FileSystem} {place : Place} : Grown tree fs fs' → fs'.entry? place = none →
      Inside tree place ∨ place <+: tree → Grown tree fs (fs'.put place .directory)

namespace Grown

theorem trans (h : Grown tree fs fs') (h' : Grown tree fs' fs'') : Grown tree fs fs'' := by
  induction h' with
  | refl => exact h
  | file contents _ free inside ih => exact ih.file contents free inside
  | directory _ free within ih => exact ih.directory free within

theorem workingDirectory (h : Grown tree fs fs') : fs'.workingDirectory = fs.workingDirectory := by
  induction h with
  | refl => rfl
  | file _ _ _ _ ih => exact ih
  | directory _ _ _ ih => exact ih

theorem keepsDirectory (h : Grown tree fs fs') (hd : fs.entry? place = some .directory) :
    fs'.entry? place = some .directory := by
  induction h with
  | refl => exact hd
  | @file fs' other contents _ free _ ih =>
    have ne : place ≠ other := fun he => free (he ▸ ih)
    rwa [entry?_put_of_ne ne]
  | @directory fs' other _ free _ ih =>
    have ne : place ≠ other := by
      rintro rfl
      simp [ih] at free
    rwa [entry?_put_of_ne ne]

theorem keepsFile (h : Grown tree fs fs') {contents : Contents}
    (hf : fs.entry? place = some (.file contents)) :
    ∃ contents', fs'.entry? place = some (.file contents') := by
  have ne : place ≠ [] := by
    rintro rfl
    simp at hf
  induction h with
  | refl => exact ⟨contents, hf⟩
  | @file fs' other contents' _ _ _ ih =>
    by_cases he : place = other
    · subst he
      exact ⟨contents', entry?_put_self ne⟩
    · rw [entry?_put_of_ne he]
      exact ih
  | @directory fs' other _ free _ ih =>
    obtain ⟨c, hc⟩ := ih
    have ne : place ≠ other := by
      rintro rfl
      simp [hc] at free
    exact ⟨c, by rwa [entry?_put_of_ne ne]⟩

/-- Outside the tree at most a directory around it is new. -/
theorem outside (h : Grown tree fs fs') (ho : ¬ Inside tree place) :
    fs'.entry? place = fs.entry? place ∨
      fs.entry? place = none ∧ fs'.entry? place = some .directory ∧ place <+: tree := by
  induction h with
  | refl => exact .inl rfl
  | @file fs' other contents _ free inside ih =>
    have ne : place ≠ other := fun he => ho (he ▸ inside)
    rwa [entry?_put_of_ne ne]
  | @directory fs' other _ free within ih =>
    by_cases he : place = other
    · subst he
      have ne : place ≠ [] := by
        rintro rfl
        simp at free
      rcases ih with same | ⟨-, now, -⟩
      · rcases within with inside | around
        · exact absurd inside ho
        · exact .inr ⟨same ▸ free, entry?_put_self ne, around⟩
      · simp [now] at free
    · rwa [entry?_put_of_ne he]

theorem outside_of_not_prefix (h : Grown tree fs fs') (ho : ¬ Inside tree place)
    (hp : ¬ place <+: tree) : fs'.entry? place = fs.entry? place := by
  rcases h.outside ho with same | ⟨-, -, around⟩
  · exact same
  · exact absurd around hp

theorem file_iff (h : Grown tree fs fs') (ho : ¬ Inside tree place) {contents : Contents} :
    fs'.entry? place = some (.file contents) ↔ fs.entry? place = some (.file contents) := by
  rcases h.outside ho with same | ⟨before, now, -⟩
  · rw [same]
  · simp [before, now]

theorem filterMap_entries {α : Type} {f : Place × Entry → Option α} (h : Grown tree fs fs')
    (directories : ∀ place, f (place, .directory) = none)
    (outside : ∀ place entry, Inside tree place → f (place, entry) = none) :
    fs'.entries.filterMap f = fs.entries.filterMap f := by
  induction h with
  | refl => rfl
  | file contents _ _ inside ih =>
    rw [← ih]
    exact filterMap_store (fun e => outside _ e inside) _
  | directory _ free _ ih =>
    rw [← ih]
    simp only [put]
    rw [store_of_lookup_none (lookup_of_entry?_none free), List.filterMap_append]
    simp [directories]

end Grown

/-! ## Well-formed file systems -/

/-- Every entry has names for a place and stands in a directory. -/
structure WellFormed (fs : FileSystem) : Prop where
  names : ∀ e ∈ fs.entries, ValidPlace e.1
  parents : ∀ place s, fs.entry? (place ++ [s]) ≠ none → fs.entry? place = some .directory

theorem WellFormed.ofEntries (names : ∀ e ∈ fs.entries, ValidPlace e.1)
    (parents : ∀ e ∈ fs.entries, fs.entry? e.1.dropLast = some .directory) : WellFormed fs where
  names := names
  parents place s h := by
    obtain ⟨entry, he⟩ := Option.ne_none_iff_exists'.mp h
    simpa using parents _ (mem_entries he (by simp))

theorem WellFormed.ancestors (h : WellFormed fs) {rest : Place} (hn : rest ≠ [])
    (he : fs.entry? (place ++ rest) ≠ none) : fs.entry? place = some .directory := by
  induction rest using List.reverseRecOn with
  | nil => exact absurd rfl hn
  | append_singleton rest s ih =>
    rw [← List.append_assoc] at he
    have parent := h.parents _ _ he
    by_cases hr : rest = []
    · simpa [hr] using parent
    · exact ih hr (by simp [parent])

theorem WellFormed.valid (h : WellFormed fs) (he : fs.entry? place = some entry) :
    ValidPlace place := by
  by_cases hn : place = []
  · exact hn ▸ .nil
  · exact h.names _ (mem_entries he hn)

end SchemaLoom.FileSystem
