import Mathlib.Data.List.Nodup
import SchemaLoom.Ordered

/-!
# Laws of tables in insertion order

Operations on a table that is split at an entry, and the names that they leave. Putting, changing
and erasing act on the first entry of a name; where names do not repeat that is the only one.
-/

namespace SchemaLoom.Ordered

variable {α : Type}

attribute [local simp] get? modify put

/-- The names of a table, in order. -/
def names (table : Ordered α) : List String := table.map Prod.fst

@[simp] theorem names_nil : names ([] : Ordered α) = [] := rfl

@[simp] theorem names_cons (name : String) (value : α) (table : Ordered α) :
    names ((name, value) :: table) = name :: names table := rfl

@[simp] theorem names_append (a b : Ordered α) : names (a ++ b) = names a ++ names b :=
  List.map_append

theorem contains_iff {name : String} {table : Ordered α} :
    contains name table = true ↔ name ∈ names table := by
  induction table with
  | nil => simp [contains]
  | cons entry rest ih =>
    obtain ⟨n, v⟩ := entry
    by_cases here : n = name
    · simp [contains, here]
    · simpa [contains, here, Ne.symm here] using ih

/-! ## A table split at an entry -/

variable {name : String} {before : Ordered α} (value : α) (rest : Ordered α)

theorem get?_split (h : name ∉ names before) :
    get? name (before ++ (name, value) :: rest) = some value := by
  induction before with
  | nil => simp
  | cons entry before ih =>
    obtain ⟨n, v⟩ := entry
    simp only [names_cons, List.mem_cons, not_or] at h
    simp [Ne.symm h.1, ih h.2]

theorem modify_split (f : α → α) (h : name ∉ names before) :
    modify name f (before ++ (name, value) :: rest) = before ++ (name, f value) :: rest := by
  induction before with
  | nil => simp
  | cons entry before ih =>
    obtain ⟨n, v⟩ := entry
    simp only [names_cons, List.mem_cons, not_or] at h
    simp [Ne.symm h.1, ih h.2]

theorem put_split (h : name ∉ names before) (new : α) :
    put name new (before ++ (name, value) :: rest) = before ++ (name, new) :: rest := by
  induction before with
  | nil => simp
  | cons entry before ih =>
    obtain ⟨n, v⟩ := entry
    simp only [names_cons, List.mem_cons, not_or] at h
    simp [Ne.symm h.1, ih h.2]

theorem exists_split {value : α} {table : Ordered α} (found : get? name table = some value) :
    ∃ before rest, table = before ++ (name, value) :: rest ∧ name ∉ names before := by
  induction table with
  | nil => simp at found
  | cons entry table ih =>
    obtain ⟨n, v⟩ := entry
    by_cases here : n = name
    · obtain rfl : v = value := by simpa [here] using found
      exact ⟨[], table, by simp [here], by simp⟩
    · obtain ⟨before, rest, rfl, first⟩ := ih (by simpa [here] using found)
      exact ⟨(n, v) :: before, rest, rfl, by simpa [Ne.symm here] using first⟩

theorem get?_of_mem {value : α} {table : Ordered α} (distinct : (names table).Nodup)
    (h : (name, value) ∈ table) : get? name table = some value := by
  obtain ⟨before, rest, rfl⟩ := List.append_of_mem h
  apply get?_split
  intro member
  simp only [names_append, names_cons, List.nodup_append] at distinct
  exact distinct.2.2 name member name List.mem_cons_self rfl

/-! ## Changing one entry -/

theorem get?_modify_self (f : α → α) (table : Ordered α) :
    get? name (modify name f table) = (get? name table).map f := by
  induction table with
  | nil => rfl
  | cons entry rest ih =>
    obtain ⟨n, v⟩ := entry
    by_cases eq : n = name <;> simp [eq, ih]

theorem modify_modify (f g : α → α) (table : Ordered α) :
    modify name f (modify name g table) = modify name (f ∘ g) table := by
  induction table with
  | nil => rfl
  | cons entry rest ih =>
    obtain ⟨n, v⟩ := entry
    by_cases eq : n = name <;> simp [eq, ih]

theorem modify_congr {f g : α → α} {table : Ordered α} {value : α}
    (h : get? name table = some value) (eq : f value = g value) :
    modify name f table = modify name g table := by
  induction table with
  | nil => rfl
  | cons entry rest ih =>
    obtain ⟨n, v⟩ := entry
    by_cases here : n = name
    · simp only [get?, if_pos here, Option.some.injEq] at h
      simp [here, h, eq]
    · simp only [get?, if_neg here] at h
      simp [here, ih h]

theorem get?_modify_ne {other : String} (different : other ≠ name) (f : α → α)
    (table : Ordered α) : get? other (modify name f table) = get? other table := by
  induction table with
  | nil => rfl
  | cons entry rest ih =>
    obtain ⟨n, v⟩ := entry
    by_cases eq : n = name
    · simp [eq, different.symm]
    · simp [eq, ih]

@[simp] theorem names_modify (f : α → α) (table : Ordered α) :
    names (modify name f table) = names table := by
  induction table with
  | nil => rfl
  | cons entry rest ih =>
    obtain ⟨n, v⟩ := entry
    by_cases eq : n = name <;> simp [eq, ih]

/-! ## Putting an entry -/

theorem mem_names_put {n : String} (value : α) (table : Ordered α) :
    n ∈ names (put name value table) ↔ n = name ∨ n ∈ names table := by
  induction table with
  | nil => simp
  | cons entry rest ih =>
    obtain ⟨m, v⟩ := entry
    by_cases eq : m = name
    · simp [eq]
    · simp [eq, ih, or_left_comm]

theorem nodup_names_put (value : α) {table : Ordered α} (distinct : (names table).Nodup) :
    (names (put name value table)).Nodup := by
  induction table with
  | nil => simp
  | cons entry rest ih =>
    obtain ⟨m, v⟩ := entry
    simp only [names_cons, List.nodup_cons] at distinct
    by_cases eq : m = name
    · subst eq
      simpa using distinct
    · simp only [put, if_neg eq, names_cons, List.nodup_cons, mem_names_put]
      exact ⟨fun member => member.elim eq distinct.1, ih distinct.2⟩

theorem mem_put {value : α} {table : Ordered α} {entry : String × α}
    (h : entry ∈ put name value table) : entry.2 = value ∨ entry ∈ table := by
  induction table with
  | nil => simp_all
  | cons e rest ih =>
    obtain ⟨m, v⟩ := e
    by_cases eq : m = name
    · simp only [put, if_pos eq, List.mem_cons] at h
      rcases h with rfl | h
      · exact .inl rfl
      · exact .inr (List.mem_cons_of_mem _ h)
    · simp only [put, if_neg eq, List.mem_cons] at h
      rcases h with rfl | h
      · exact .inr List.mem_cons_self
      · exact (ih h).imp id (List.mem_cons_of_mem _)

/-! ## Putting all entries of a table -/

theorem get?_put {other : String} (value : α) (table : Ordered α) :
    get? other (put name value table) = if name = other then some value else get? other table := by
  induction table with
  | nil => rfl
  | cons entry rest ih =>
    obtain ⟨n, v⟩ := entry
    by_cases here : n = name
    · subst here
      by_cases same : n = other <;> simp [same]
    · simp only [put, if_neg here, get?, ih]
      by_cases same : n = other
      · simp [same, show name ≠ other from fun eq => here (same.trans eq.symm)]
      · simp [same]

theorem names_put (value : α) (table : Ordered α) : names (put name value table) =
    if name ∈ names table then names table else names table ++ [name] := by
  induction table with
  | nil => rfl
  | cons entry rest ih =>
    obtain ⟨n, v⟩ := entry
    by_cases here : n = name
    · simp [here]
    · simp only [put, if_neg here, names_cons, ih, List.mem_cons, Ne.symm here, false_or]
      split <;> rfl

theorem get?_append (table more : Ordered α) :
    get? name (table ++ more) = (get? name table).or (get? name more) := by
  induction table with
  | nil => rfl
  | cons entry rest ih =>
    obtain ⟨n, v⟩ := entry
    by_cases here : n = name <;> simp [here, ih]

/-- A table overridden by another one: its names keep their places, new names follow in the order in
which they come first, and the last value given to a name counts. -/
structure Overridden (table more result : Ordered α) : Prop where
  names : names result =
    names table ++ ((names more).filter fun name => name ∉ names table).eraseDups
  values : ∀ name, get? name result = (get? name more.reverse).or (get? name table)

theorem overridden_putAll (table more : Ordered α) : Overridden table more (putAll table more) := by
  induction more generalizing table with
  | nil => exact ⟨by simp [putAll], fun name => rfl⟩
  | cons entry more ih =>
    obtain ⟨name, value⟩ := entry
    obtain ⟨names, values⟩ := ih (put name value table)
    refine ⟨?_, fun other => ?_⟩
    · change Ordered.names (putAll (put name value table) more) = _
      rw [names, names_put, names_cons, List.filter_cons]
      by_cases known : name ∈ Ordered.names table
      · simp [known]
      · rw [if_neg known, if_pos (by simpa using known), List.eraseDups_cons, List.filter_filter,
          List.append_assoc, List.singleton_append]
        congr 4
        funext other
        by_cases same : other = name <;> simp [same]
    · change get? other (putAll (put name value table) more) = _
      rw [values, get?_put, List.reverse_cons, get?_append, Option.or_assoc]
      by_cases same : name = other <;> simp [same]

end SchemaLoom.Ordered
