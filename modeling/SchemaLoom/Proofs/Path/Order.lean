import Mathlib.Data.List.Lex
import Mathlib.Data.Prod.Lex
import Mathlib.Data.String.Basic
import SchemaLoom.Proofs.Path.Components

/-!
# The order of paths

Paths are ordered as the lists of the keys of their components, so the order is a linear one in
which exactly the paths that name the same place are not told apart.
-/

namespace SchemaLoom.Path

/-- What components are ordered by: their rank, and names behind that by their text. -/
def Component.key : Component → Nat ×ₗ String
  | .name s => toLex (3, s)
  | c => toLex (c.rank, "")

theorem Component.key_injective : Function.Injective Component.key := by
  intro a b eq
  cases a <;> cases b <;> simp_all [Component.key, Component.rank]

theorem Component.before_iff {a b : Component} : a.before b = true ↔ a.key < b.key := by
  cases a <;> cases b <;>
    simp [Component.before, Component.key, Component.rank, Prod.Lex.toLex_lt_toLex]

def key (p : Path) : List (Nat ×ₗ String) := p.components.map Component.key

variable {p q : Path} {paths : List Path}

theorem componentsBefore_iff {as bs : List Component} :
    componentsBefore as bs = true ↔ as.map Component.key < bs.map Component.key := by
  induction as generalizing bs with
  | nil => cases bs <;> simp [componentsBefore]
  | cons a as ih =>
    cases bs with
    | nil => simp [componentsBefore]
    | cons b bs =>
      rw [componentsBefore, List.map_cons, List.map_cons, List.cons_lt_cons_iff]
      by_cases eq : a = b
      · subst eq
        simp [ih]
      · simp [eq, Component.before_iff, Component.key_injective.eq_iff]

theorem noLater_iff : p.noLater q = true ↔ p.key ≤ q.key := by
  rw [noLater, Bool.not_eq_true', ← Bool.not_eq_true, componentsBefore_iff, not_lt]
  rfl

theorem pairwise_sort (paths : List Path) :
    (sort paths).Pairwise fun p q => p.noLater q = true := by
  apply List.pairwise_mergeSort
  · intro p q r hpq hqr
    rw [noLater_iff] at *
    exact hpq.trans hqr
  · intro p q
    rw [Bool.or_eq_true, noLater_iff, noLater_iff]
    exact le_total _ _

/-- Paths in strictly increasing order, so none of them twice. -/
def Increasing (paths : List Path) : Prop :=
  paths.Pairwise fun p q => p.noLater q = true ∧ p.same q = false

theorem increasing_sort (distinct : paths.Pairwise fun p q => p.same q = false) :
    Increasing (sort paths) := by
  have apart : (sort paths).Pairwise fun p q => p.same q = false :=
    (List.mergeSort_perm paths noLater).symm.pairwise distinct fun h => same_comm.trans h
  exact List.pairwise_and_iff.mpr ⟨pairwise_sort paths, apart⟩

end SchemaLoom.Path
