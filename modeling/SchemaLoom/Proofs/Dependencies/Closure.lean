import Mathlib.Logic.Function.Iterate
import Mathlib.Logic.Relation
import SchemaLoom.Proofs.Affected
import SchemaLoom.Proofs.Dependencies.History
import SchemaLoom.Proofs.Path.Order

/-!
# Affected templates are the importers of the changed ones

The search runs out of paths, whatever cycles the graph has. It finds every path from which a
changed one is reached along edges, each once, and no other.
-/

namespace SchemaLoom.Dependencies

open Relation

variable {d : Dependencies} {p q x path : Path} {paths seen fresh changed : List Path}

/-! ## Rounds of the search -/

/-- A search along the edges: the paths met so far, those of them to look at yet, and what was
found. -/
structure Search where
  met : List Path
  queue : List Path
  found : List Path

namespace Search

def start (changed : List Path) : Search := ⟨changed, changed, []⟩

/-- Looks at the first path of the queue; nothing happens when there is none. -/
def round (d : Dependencies) (s : Search) : Search :=
  match s.queue with
  | [] => s
  | path :: queue =>
    let fresh := d.freshImporters path s.met
    ⟨s.met ++ fresh, queue ++ fresh, s.found ++ fresh⟩

theorem round_of_done {s : Search} (done : s.queue = []) : s.round d = s := by
  simp [round, done]

theorem found_rounds (n : Nat) (s : Search) :
    ((round d)^[n] s).found = s.found ++ d.follow n s.met s.queue := by
  induction n generalizing s with
  | zero => simp [follow]
  | succ n ih =>
    rw [Function.iterate_succ_apply, ih]
    obtain ⟨met, queue, found⟩ := s
    cases queue with
    | nil => cases n <;> simp [round, follow]
    | cons path queue => simp [round, follow]

/-- A round takes one path from the queue, and a path is put there only when it is met. -/
theorem queue_rounds (n : Nat) (s : Search)
    (enough : s.queue.length + (d.unmet s.met).length ≤ n) : ((round d)^[n] s).queue = [] := by
  induction n generalizing s with
  | zero =>
    rw [Function.iterate_zero_apply]
    exact List.length_eq_zero_iff.mp (by omega)
  | succ n ih =>
    obtain ⟨met, queue, found⟩ := s
    cases queue with
    | nil => rw [Function.iterate_fixed (round_of_done rfl)]
    | cons path queue =>
      rw [Function.iterate_succ_apply]
      apply ih
      have fewer := @length_foldl_meet d met [] path d.edges (List.Subset.refl d.edges)
      rw [← freshImporters_eq, List.append_nil, List.length_nil] at fewer
      simp only [round, List.length_append, List.length_cons] at enough ⊢
      omega

/-- However long it goes on, the search ends with what `affected` sorts. -/
theorem affected_eq (d : Dependencies) (changed : List Path) :
    ∃ n, ((round d)^[n] (start changed)).queue = [] ∧
      d.affected changed = Path.sort ((round d)^[n] (start changed)).found := by
  have few : (d.unmet changed).length ≤ d.edges.length := List.length_filter_le _ _
  refine ⟨changed.length + d.edges.length, queue_rounds _ _ ?_, ?_⟩
  · simp only [start]
    omega
  · rw [found_rounds]
    rfl

end Search

/-! ## What is found -/

/-- Importers of a path that were not met before, each once. -/
structure Fresh (d : Dependencies) (path : Path) (seen fresh : List Path) : Prop where
  imports : ∀ x ∈ fresh, d.Has x path
  new : ∀ x ∈ fresh, hasPath seen x = false
  distinct : fresh.Pairwise fun p q => p.same q = false

theorem not_same_of_mem (new : hasPath paths x = false) (mem : p ∈ paths) : p.same x = false := by
  rw [Path.same_comm, ← Bool.not_eq_true]
  intro same
  rw [hasPath_iff.mpr ⟨p, mem, same⟩] at new
  contradiction

theorem pairwise_concat (distinct : paths.Pairwise fun p q => p.same q = false)
    (new : hasPath paths x = false) : (paths ++ [x]).Pairwise fun p q => p.same q = false := by
  refine List.pairwise_append.mpr ⟨distinct, List.pairwise_singleton _ _, ?_⟩
  intro p mem y only
  obtain rfl := List.mem_singleton.mp only
  exact not_same_of_mem new mem

theorem Fresh.meet {e : ImportEdge} (h : Fresh d path seen fresh) (mem : e ∈ d.edges) :
    Fresh d path seen (meet path seen fresh e) := by
  unfold Dependencies.meet
  split
  · rename_i new
    simp only [Bool.and_eq_true, Bool.not_eq_true'] at new
    obtain ⟨⟨imported, unseen⟩, unlisted⟩ := new
    refine ⟨fun x listed => ?_, fun x listed => ?_, pairwise_concat h.distinct unlisted⟩
    · rcases List.mem_append.mp listed with old | only
      · exact h.imports x old
      · obtain rfl := List.mem_singleton.mp only
        exact ⟨e, mem, Path.same_self _, imported⟩
    · rcases List.mem_append.mp listed with old | only
      · exact h.new x old
      · obtain rfl := List.mem_singleton.mp only
        exact unseen
  · exact h

theorem fresh_freshImporters (d : Dependencies) (path : Path) (seen : List Path) :
    Fresh d path seen (d.freshImporters path seen) := by
  rw [freshImporters_eq]
  have whole : ∀ edges ⊆ d.edges, ∀ fresh, Fresh d path seen fresh →
      Fresh d path seen (edges.foldl (Dependencies.meet path seen) fresh) := by
    intro edges sub fresh h
    induction edges generalizing fresh with
    | nil => exact h
    | cons e edges ih =>
      exact ih (List.subset_of_cons_subset sub) _ (h.meet (sub List.mem_cons_self))
  exact whole d.edges (List.Subset.refl _) [] ⟨by simp, by simp, List.Pairwise.nil⟩

theorem hasPath_append_eq_false {more : List Path} :
    hasPath (paths ++ more) x = false ↔ hasPath paths x = false ∧ hasPath more x = false := by
  simp only [hasPath, List.any_append, Bool.or_eq_false_iff]

/-- Paths not met before from which one of the queue is reached, each once. -/
structure Found (d : Dependencies) (seen queue found : List Path) : Prop where
  reaches : ∀ x ∈ found, ∃ q ∈ queue, TransGen d.Has x q
  new : ∀ x ∈ found, hasPath seen x = false
  distinct : found.Pairwise fun p q => p.same q = false

theorem found_follow (bound : Nat) (seen queue : List Path) :
    Found d seen queue (d.follow bound seen queue) := by
  induction bound generalizing seen queue with
  | zero => exact ⟨by simp [follow], by simp [follow], List.Pairwise.nil⟩
  | succ bound ih =>
    cases queue with
    | nil => exact ⟨by simp [follow], by simp [follow], List.Pairwise.nil⟩
    | cons path queue =>
      rw [follow]
      have first := fresh_freshImporters d path seen
      have rest := ih (seen ++ d.freshImporters path seen) (queue ++ d.freshImporters path seen)
      refine ⟨fun x mem => ?_, fun x mem => ?_,
        List.pairwise_append.mpr ⟨first.distinct, rest.distinct, fun x old y late => ?_⟩⟩
      · rcases List.mem_append.mp mem with mem | mem
        · exact ⟨path, List.mem_cons_self, .single (first.imports x mem)⟩
        · obtain ⟨q, queued, reaches⟩ := rest.reaches x mem
          rcases List.mem_append.mp queued with queued | queued
          · exact ⟨q, List.mem_cons_of_mem _ queued, reaches⟩
          · exact ⟨path, List.mem_cons_self, reaches.tail (first.imports q queued)⟩
      · rcases List.mem_append.mp mem with mem | mem
        · exact first.new x mem
        · exact (hasPath_append_eq_false.mp (rest.new x mem)).1
      · exact not_same_of_mem (hasPath_append_eq_false.mp (rest.new y late)).2 old

theorem increasing_affected (d : Dependencies) (changed : List Path) :
    Path.Increasing (d.affected changed) :=
  Path.increasing_sort (found_follow _ _ _).distinct

/-- The search is closed under importers, so along edges it comes as far as they lead. -/
theorem hasPath_of_reaches {c : Path} (mem : c ∈ changed) (reaches : TransGen d.Has x c) :
    hasPath (changed ++ d.affected changed) x = true := by
  induction reaches using TransGen.head_induction_on with
  | single h => exact hasPath_affected h (hasPath_of_mem (List.mem_append_left _ mem))
  | head h _ found => exact hasPath_affected h found

theorem has_congr_left (h : p.same q = true) : d.Has p x ↔ d.Has q x := by
  have back : q.same p = true := Path.same_comm.trans h
  exact ⟨.congr h (Path.same_self x), .congr back (Path.same_self x)⟩

theorem reaches_congr_left (h : p.same q = true) (reaches : TransGen d.Has p x) :
    TransGen d.Has q x := by
  obtain ⟨y, first, rest⟩ := TransGen.head'_iff.mp reaches
  exact TransGen.head'_iff.mpr ⟨y, (has_congr_left h).mp first, rest⟩

theorem hasPath_affected_iff : hasPath (d.affected changed) x = true ↔
    hasPath changed x = false ∧ ∃ c ∈ changed, TransGen d.Has x c := by
  constructor
  · intro listed
    obtain ⟨y, mem, same⟩ := hasPath_iff.mp listed
    have found := found_follow (d := d) (changed.length + d.edges.length) changed changed
    rw [mem_affected] at mem
    obtain ⟨c, queued, reaches⟩ := found.reaches y mem
    refine ⟨?_, c, queued, reaches_congr_left (Path.same_comm.trans same) reaches⟩
    rw [hasPath_congr same]
    exact found.new y mem
  · rintro ⟨new, c, mem, reaches⟩
    rcases hasPath_append.mp (hasPath_of_reaches mem reaches) with old | listed
    · simp [new] at old
    · exact listed

/-- Whatever was recorded, forgotten and removed, and in whatever cycles: the search comes to an
end, and what it found are, in path order and each once, the paths other than the changed ones that
lead to a changed one along live edges. -/
theorem affected_after (updates : List Update) (changed : List Path) :
    (∃ n, ((Search.round (after updates))^[n] (Search.start changed)).queue = [] ∧
      (after updates).affected changed =
        Path.sort ((Search.round (after updates))^[n] (Search.start changed)).found) ∧
    Path.Increasing ((after updates).affected changed) ∧
    ∀ x, hasPath ((after updates).affected changed) x = true ↔
      hasPath changed x = false ∧ ∃ c ∈ changed, TransGen (Live updates) x c := by
  refine ⟨Search.affected_eq _ _, increasing_affected _ _, fun x => ?_⟩
  have live : (after updates).Has = Live updates :=
    funext fun p => funext fun q => propext (has_after updates)
  rw [hasPath_affected_iff, live]

end SchemaLoom.Dependencies
