import SchemaLoom.Proofs.Dependencies

/-!
# Templates that a change affects

The search along the edges takes every importer at most once, so its bound is never met: whoever
imports a changed template, or one that the search found, is found as well.
-/

namespace SchemaLoom.Dependencies

variable {d : Dependencies} {p q x : Path} {paths more seen fresh : List Path}

theorem hasPath_iff : hasPath paths p = true ↔ ∃ q ∈ paths, p.same q = true := List.any_eq_true

theorem hasPath_of_mem (mem : p ∈ paths) : hasPath paths p = true :=
  hasPath_iff.mpr ⟨p, mem, Path.same_self p⟩

theorem hasPath_append :
    hasPath (paths ++ more) p = true ↔ hasPath paths p = true ∨ hasPath more p = true := by
  simp [hasPath]

theorem hasPath_congr (h : p.same q = true) : hasPath paths p = hasPath paths q := by
  have same : p.same = q.same := funext fun r => Path.same_congr (Path.same_iff.mp h)
  simp [hasPath, same]

/-! ## The importers of one path -/

/-- The edges whose importers are not among the paths. -/
def unmet (d : Dependencies) (paths : List Path) : List ImportEdge :=
  d.edges.filter fun e => !hasPath paths e.importer

theorem length_unmet_concat {e : ImportEdge} (mem : e ∈ d.edges)
    (new : hasPath paths e.importer = false) :
    (d.unmet (paths ++ [e.importer])).length < (d.unmet paths).length := by
  have again : d.unmet (paths ++ [e.importer]) =
      (d.unmet paths).filter fun f => !hasPath [e.importer] f.importer := by
    unfold unmet
    rw [List.filter_filter]
    apply List.filter_congr
    intro f _
    simp [hasPath, Bool.and_comm]
  rw [again, List.length_filter_lt_length_iff_exists]
  refine ⟨e, List.mem_filter.mpr ⟨mem, by simp [new]⟩, ?_⟩
  simp [hasPath]

/-- Takes an edge of the path into account. -/
def meet (path : Path) (seen fresh : List Path) (e : ImportEdge) : List Path :=
  if e.imported.same path && !hasPath seen e.importer && !hasPath fresh e.importer then
    fresh ++ [e.importer]
  else fresh

theorem meet_cases (path : Path) (seen fresh : List Path) (e : ImportEdge) :
    meet path seen fresh e = fresh ++ [e.importer] ∧ hasPath (seen ++ fresh) e.importer = false ∨
      meet path seen fresh e = fresh ∧
        (e.imported.same path = true → hasPath (seen ++ fresh) e.importer = true) := by
  unfold meet
  split
  · rename_i new
    simp only [Bool.and_eq_true, Bool.not_eq_true'] at new
    refine .inl ⟨rfl, ?_⟩
    rw [Bool.eq_false_iff]
    intro old
    rcases hasPath_append.mp old with old | old
    · simp [old] at new
    · simp [old] at new
  · rename_i old
    refine .inr ⟨rfl, fun imported => hasPath_append.mpr ?_⟩
    by_cases first : hasPath seen e.importer = true
    · exact .inl first
    · simp only [imported, first, Bool.true_and, Bool.not_false, Bool.not_eq_true',
        Bool.not_eq_false] at old
      exact .inr old

theorem freshImporters_eq (path : Path) (seen : List Path) :
    d.freshImporters path seen = d.edges.foldl (meet path seen) [] := rfl

theorem subset_foldl_meet {path : Path} (edges : List ImportEdge) :
    fresh ⊆ edges.foldl (meet path seen) fresh := by
  induction edges generalizing fresh with
  | nil => exact List.Subset.refl _
  | cons e edges ih =>
    rw [List.foldl_cons]
    refine List.Subset.trans ?_ ih
    rcases meet_cases path seen fresh e with ⟨eq, -⟩ | ⟨eq, -⟩
    · rw [eq]
      exact List.subset_append_left _ _
    · rw [eq]
      exact List.Subset.refl _

theorem hasPath_mono (sub : paths ⊆ more) (h : hasPath paths p = true) : hasPath more p = true := by
  obtain ⟨q, mem, same⟩ := hasPath_iff.mp h
  exact hasPath_iff.mpr ⟨q, sub mem, same⟩

/-- What an importer of the path was met as. -/
theorem hasPath_foldl_meet {path : Path} {edges : List ImportEdge} {e : ImportEdge}
    (mem : e ∈ edges) (imported : e.imported.same path = true) :
    hasPath (seen ++ edges.foldl (meet path seen) fresh) e.importer = true := by
  induction edges generalizing fresh with
  | nil => simp at mem
  | cons f edges ih =>
    rw [List.foldl_cons]
    rcases List.mem_cons.mp mem with rfl | mem
    · have met : hasPath (seen ++ meet path seen fresh e) e.importer = true := by
        rcases meet_cases path seen fresh e with ⟨eq, -⟩ | ⟨eq, old⟩
        · rw [eq]
          exact hasPath_of_mem (by simp)
        · rw [eq]
          exact old imported
      apply hasPath_mono _ met
      intro x mem
      rcases List.mem_append.mp mem with mem | mem
      · exact List.mem_append_left _ mem
      · exact List.mem_append_right _ (subset_foldl_meet edges mem)
    · exact ih mem

theorem mem_foldl_meet {path : Path} {edges : List ImportEdge}
    (mem : x ∈ edges.foldl (meet path seen) fresh) :
    x ∈ fresh ∨ ∃ e ∈ edges, e.importer = x := by
  induction edges generalizing fresh with
  | nil => exact .inl mem
  | cons e edges ih =>
    rw [List.foldl_cons] at mem
    rcases ih mem with mem | ⟨f, found, eq⟩
    · rcases meet_cases path seen fresh e with ⟨eq, -⟩ | ⟨eq, -⟩
      · rw [eq] at mem
        rcases List.mem_append.mp mem with mem | mem
        · exact .inl mem
        · exact .inr ⟨e, List.mem_cons_self, (List.mem_singleton.mp mem).symm⟩
      · exact .inl (eq ▸ mem)
    · exact .inr ⟨f, List.mem_cons_of_mem _ found, eq⟩

/-- Every path that is new takes at least one edge away. -/
theorem length_foldl_meet {path : Path} {edges : List ImportEdge} (sub : edges ⊆ d.edges) :
    (edges.foldl (meet path seen) fresh).length +
        (d.unmet (seen ++ edges.foldl (meet path seen) fresh)).length ≤
      fresh.length + (d.unmet (seen ++ fresh)).length := by
  induction edges generalizing fresh with
  | nil => exact Nat.le_refl _
  | cons e edges ih =>
    rw [List.foldl_cons]
    have rest := @ih (meet path seen fresh e) (List.subset_of_cons_subset sub)
    rcases meet_cases path seen fresh e with ⟨eq, new⟩ | ⟨eq, -⟩
    · rw [eq] at rest ⊢
      have fewer := length_unmet_concat (sub List.mem_cons_self) new
      rw [List.append_assoc] at fewer
      rw [List.length_append, List.length_singleton] at rest
      omega
    · rw [eq] at rest ⊢
      exact rest

/-! ## The search -/

theorem mem_follow {bound : Nat} {queue : List Path} (mem : x ∈ d.follow bound seen queue) :
    ∃ e ∈ d.edges, e.importer = x := by
  induction bound generalizing seen queue with
  | zero => simp [follow] at mem
  | succ bound ih =>
    cases queue with
    | nil => simp [follow] at mem
    | cons path queue =>
      rw [follow] at mem
      rcases List.mem_append.mp mem with mem | mem
      · rw [freshImporters_eq] at mem
        exact (mem_foldl_meet mem).resolve_left List.not_mem_nil
      · exact ih mem

/-- The search meets the importers of all that was queued and of all that it finds. -/
theorem follow_closed {bound : Nat} {queue : List Path}
    (enough : queue.length + (d.unmet seen).length ≤ bound)
    (mem : q ∈ queue ++ d.follow bound seen queue) (h : d.Has p q) :
    hasPath (seen ++ d.follow bound seen queue) p = true := by
  induction bound generalizing seen queue with
  | zero =>
    obtain rfl : queue = [] := List.length_eq_zero_iff.mp (by omega)
    simp [follow] at mem
  | succ bound ih =>
    cases queue with
    | nil => simp [follow] at mem
    | cons path queue =>
      rw [follow] at mem ⊢
      rw [← List.append_assoc]
      rw [List.cons_append, List.mem_cons, ← List.append_assoc] at mem
      rcases mem with rfl | mem
      · obtain ⟨e, found, importer, imported⟩ := h
        rw [← hasPath_congr importer, hasPath_append]
        exact .inl (hasPath_foldl_meet found imported)
      · apply ih _ mem
        have fewer := @length_foldl_meet d seen [] path d.edges (List.Subset.refl d.edges)
        rw [← freshImporters_eq, List.append_nil, List.length_nil] at fewer
        rw [List.length_append]
        rw [List.length_cons] at enough
        omega

theorem mem_affected {changed : List Path} :
    x ∈ d.affected changed ↔ x ∈ d.follow (changed.length + d.edges.length) changed changed := by
  unfold affected Path.sort
  exact List.mem_mergeSort

theorem exists_importer {changed : List Path} (mem : x ∈ d.affected changed) :
    ∃ e ∈ d.edges, e.importer = x :=
  mem_follow (mem_affected.mp mem)

theorem hasPath_affected {changed : List Path} (h : d.Has p q)
    (found : hasPath (changed ++ d.affected changed) q = true) :
    hasPath (changed ++ d.affected changed) p = true := by
  obtain ⟨r, mem, same⟩ := hasPath_iff.mp found
  have same_sets : ∀ y, y ∈ changed ++ d.affected changed ↔
      y ∈ changed ++ d.follow (changed.length + d.edges.length) changed changed := by
    intro y
    rw [List.mem_append, List.mem_append, mem_affected]
  have few : (d.unmet changed).length ≤ d.edges.length := List.length_filter_le _ _
  have met := follow_closed (by omega) ((same_sets r).mp mem) (h.congr (Path.same_self p) same)
  exact hasPath_mono (fun y hy => (same_sets y).mpr hy) met

end SchemaLoom.Dependencies
