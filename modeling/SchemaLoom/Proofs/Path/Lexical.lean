import SchemaLoom.Proofs.Path.Relative

/-!
# What resolving leaves of a path

Read from left to right, a path leaves the names that no `..` took back, and a surplus of `..` that
found no name. The surplus is the most by which `..` outnumber names in a beginning of the path.
Behind the root it means nothing, and a relative path leads up by it.

Resolving takes back whatever stands last, and so also a `..` that was kept. Of the surplus only its
parity is left, and a path is resolved as it reads exactly where that makes no difference.
-/

namespace SchemaLoom.Path

open FileSystem

variable {p : Path} {c : Component} {cs front : List Component} {absolute : Bool}

/-! ## Reading components -/

/-- What stands of the components that were read. -/
structure Resolution where
  /-- The number of `..` that found no name. -/
  surplus : Nat
  /-- The names that no `..` took back. -/
  names : Place
deriving DecidableEq, Repr

namespace Resolution

variable {r : Resolution} {a : Place} {s : String}

def start : Resolution := ⟨0, []⟩

/-- A name stands, and `..` takes back the nearest one. -/
def read (r : Resolution) : Component → Resolution
  | .root | .here => r
  | .name s => { r with names := r.names ++ [s] }
  | .up =>
    if r.names = [] then { r with surplus := r.surplus + 1 }
    else { r with names := r.names.dropLast }

@[simp] theorem read_name (r : Resolution) (s : String) :
    r.read (.name s) = ⟨r.surplus, r.names ++ [s]⟩ := rfl

theorem read_up_of_nil (h : r.names = []) : r.read .up = ⟨r.surplus + 1, []⟩ := by
  simp [read, h]

theorem read_up_of_concat (h : r.names = a ++ [s]) : r.read .up = ⟨r.surplus, a⟩ := by
  simp [read, h]

end Resolution

/-- What is left of components. -/
def left (cs : List Component) : Resolution := cs.foldl Resolution.read .start

theorem left_concat (cs : List Component) (c : Component) :
    left (cs ++ [c]) = (left cs).read c := by
  simp [left]

theorem left_names (cs : List Component) (a : Place) :
    left (cs ++ a.map .name) = ⟨(left cs).surplus, (left cs).names ++ a⟩ := by
  induction a using List.reverseRecOn with
  | nil => simp
  | append_singleton a s ih =>
    rw [List.map_append, ← List.append_assoc, List.map_singleton, left_concat, ih,
      Resolution.read_name, List.append_assoc]

/-! ### The surplus -/

/-- By how much the `..` of a list outnumber its names. -/
def excess : List Component → Int
  | [] => 0
  | .up :: cs => excess cs + 1
  | .name _ :: cs => excess cs - 1
  | _ :: cs => excess cs

theorem excess_append (as bs : List Component) : excess (as ++ bs) = excess as + excess bs := by
  induction as with
  | nil => simp [excess]
  | cons c as ih =>
    rw [List.cons_append]
    cases c with
    | root | here => exact ih
    | up | name s =>
      simp only [excess, ih]
      omega

/-- As many names stand as the surplus exceeds the excess by. -/
theorem surplus_eq (cs : List Component) :
    ((left cs).surplus : Int) = excess cs + (left cs).names.length := by
  induction cs using List.reverseRecOn with
  | nil => rfl
  | append_singleton cs c ih =>
    rw [left_concat, excess_append]
    cases c with
    | root | here => simpa [Resolution.read, excess] using ih
    | name s =>
      simp only [Resolution.read_name, excess, List.length_append, List.length_singleton]
      omega
    | up =>
      rcases List.eq_nil_or_concat' (left cs).names with empty | ⟨a, s, last⟩
      · rw [empty, List.length_nil] at ih
        simp only [Resolution.read_up_of_nil empty, excess, List.length_nil]
        omega
      · rw [last, List.length_append, List.length_singleton] at ih
        simp only [Resolution.read_up_of_concat last, excess]
        omega

theorem surplus_le_concat (cs : List Component) (c : Component) :
    (left cs).surplus ≤ (left (cs ++ [c])).surplus := by
  rw [left_concat]
  cases c with
  | root | here | name s => exact Nat.le_refl _
  | up =>
    unfold Resolution.read
    dsimp only
    split
    · exact Nat.le_succ _
    · exact Nat.le_refl _

theorem excess_le_surplus (h : front <+: cs) : excess front ≤ (left cs).surplus := by
  induction cs using List.reverseRecOn with
  | nil =>
    obtain rfl := List.prefix_nil.mp h
    exact Int.le_refl 0
  | append_singleton cs c ih =>
    rcases List.prefix_concat_iff.mp h with rfl | shorter
    · have balance := surplus_eq (cs ++ [c])
      omega
    · have before := ih shorter
      have grows := surplus_le_concat cs c
      omega

/-- The last `..` without a name ends a beginning in which no name stands. -/
theorem exists_excess_eq_surplus (cs : List Component) :
    ∃ front, front <+: cs ∧ excess front = (left cs).surplus := by
  induction cs using List.reverseRecOn with
  | nil => exact ⟨[], List.prefix_rfl, rfl⟩
  | append_singleton cs c ih =>
    by_cases grew : (left (cs ++ [c])).surplus = (left cs).surplus
    · obtain ⟨front, begins, reached⟩ := ih
      exact ⟨front, begins.trans (List.prefix_append cs [c]), grew ▸ reached⟩
    · have none : (left (cs ++ [c])).names = [] := by
        rw [left_concat] at grew ⊢
        cases c with
        | root | here | name s => exact absurd rfl grew
        | up =>
          rcases List.eq_nil_or_concat' (left cs).names with empty | ⟨a, s, last⟩
          · rw [Resolution.read_up_of_nil empty]
          · rw [Resolution.read_up_of_concat last] at grew
            exact absurd rfl grew
      have balance := surplus_eq (cs ++ [c])
      rw [none, List.length_nil] at balance
      exact ⟨_, List.prefix_rfl, by omega⟩

/-! ## Paths spelled by their steps -/

/-- The path of steps, from the root or from where one is. -/
def spell (absolute : Bool) (cs : List Component) : Path :=
  ofComponents (if absolute then .root :: cs else cs)

theorem spell_concat (absolute : Bool) (cs : List Component) (c : Component) :
    spell absolute (cs ++ [c]) = (spell absolute cs).join c.path := by
  cases absolute
  · exact ofComponents_concat cs c
  · exact ofComponents_concat (.root :: cs) c

section

variable (steps : ∀ c ∈ cs, IsStep c)
include steps

theorem chars_spell (absolute : Bool) : (spell absolute cs).chars =
    (if absolute then ['/'] else []) ++ Text.joinWith ['/'] (cs.map (·.path.chars)) := by
  cases absolute with
  | false => exact chars_ofComponents steps
  | true =>
    induction cs using List.reverseRecOn with
    | nil => rfl
    | append_singleton cs c ih =>
      have front : ∀ d ∈ cs, IsStep d := fun d mem => steps d (List.mem_append_left _ mem)
      have relative := (steps c (by simp)).isAbsolute
      rw [spell_concat, List.map_append, List.map_singleton]
      unfold join
      rw [if_neg (by simp [relative]), ih front]
      by_cases empty : cs = []
      · subst empty
        simp [Text.joinWith]
      · obtain ⟨solid, ends⟩ := joinWith_getLast? (by simpa using empty) (pieces_free front)
          (pieces_ne_nil front)
        have inner :
            (['/'] ++ Text.joinWith ['/'] (cs.map (·.path.chars))).getLast? ≠ some '/' := by
          rwa [List.getLast?_append_of_ne_nil _ solid]
        rw [if_neg (by simpa using inner), chars_ofChars,
          Text.joinWith_append (by simpa using empty) (by simp)]
        rfl

theorem unsplit_spell (absolute : Bool) :
    unsplit (if absolute then some .root else none) (cs.map (·.path.chars)) =
      spell absolute cs := by
  apply ext_chars
  rw [chars_spell steps]
  cases absolute <;> simp [unsplit]

theorem split_spell (nonempty : cs ≠ []) (absolute : Bool) : (spell absolute cs).split =
    (if absolute then some .root else none, cs.map (·.path.chars)) := by
  have pieces : Text.splitOn '/' (Text.joinWith ['/'] (cs.map (·.path.chars))) =
      cs.map (·.path.chars) := Text.splitOn_joinWith (by simpa using nonempty) (pieces_free steps)
  have chars := chars_spell steps absolute
  cases absolute with
  | true =>
    rw [split_absolute (p := spell true cs) chars]
    exact congrArg _ pieces
  | false =>
    have relative : (spell false cs).isAbsolute = false := isAbsolute_ofComponents steps
    have whole : (spell false cs).pieces = cs.map (·.path.chars) := by
      rw [Path.pieces, chars]
      exact pieces
    cases cs with
    | nil => exact absurd rfl nonempty
    | cons c cs =>
      have solid : c.path.chars ≠ ['.'] := by
        intro dot
        have here := (steps c List.mem_cons_self).ofPiece?
        simp [dot, Component.ofPiece?, isVoid] at here
      unfold Path.split
      rw [whole, relative]
      simp [solid]

end

theorem parent?_spell_nil (absolute : Bool) : (spell absolute []).parent? = none := by
  cases absolute <;> decide

/-- Without its last step a path is spelled by the others. -/
theorem parent?_spell (steps : ∀ d ∈ cs ++ [c], IsStep d) (absolute : Bool) :
    (spell absolute (cs ++ [c])).parent? = some (spell absolute cs) := by
  have solid : ∀ ds : List Component, (∀ d ∈ ds, IsStep d) →
      dropVoidEnd (ds.map (·.path.chars)) = ds.map (·.path.chars) := by
    intro ds steps
    rw [dropVoidEnd_eq, List.rdropWhile_eq_self_iff]
    intro nonempty void
    obtain ⟨d, mem, eq⟩ := List.mem_map.mp (List.getLast_mem nonempty)
    have piece := (steps d mem).ofPiece?
    rw [eq, ofPiece?_eq_none_iff.mpr void] at piece
    simp at piece
  have front : ∀ d ∈ cs, IsStep d := fun d mem => steps d (List.mem_append_left _ mem)
  have last : ((cs ++ [c]).map (·.path.chars)).dropLast = cs.map (·.path.chars) := by simp
  unfold Path.parent?
  rw [split_spell steps (by simp)]
  simp only [solid _ steps]
  cases pieces : (cs ++ [c]).map (·.path.chars) with
  | nil => simp at pieces
  | cons piece rest =>
    simp only
    rw [← pieces, last, solid cs front, unsplit_spell front]

theorem steps_spell (steps : ∀ c ∈ cs, IsStep c) (absolute : Bool) :
    Path.steps (spell absolute cs).chars = cs := by
  have whole := steps_ofComponents steps
  rw [chars_ofComponents steps] at whole
  rw [chars_spell steps]
  cases absolute with
  | false => exact whole
  | true => exact (steps_append [] _).trans whole

theorem components_spell (steps : ∀ c ∈ cs, IsStep c) (absolute : Bool) :
    (spell absolute cs).components = (if absolute then [.root] else []) ++ cs := by
  by_cases empty : cs = []
  · subst empty
    cases absolute <;> decide
  · unfold components
    rw [split_spell steps empty, filterMap_pieces steps]
    cases absolute <;> rfl

/-! ## Resolving -/

/-- The steps that lead up so many times and then along what stands. -/
def Resolution.steps (r : Resolution) (ups : Nat) : List Component :=
  List.replicate ups .up ++ r.names.map .name

theorem isStep_steps {r : Resolution} (valid : ValidPlace r.names) (ups : Nat) :
    ∀ c ∈ r.steps ups, IsStep c := by
  intro c mem
  rcases List.mem_append.mp mem with mem | mem
  · exact .inl (List.eq_of_mem_replicate mem)
  · obtain ⟨s, found, rfl⟩ := List.mem_map.mp mem
    exact .inr ⟨s, valid s found, rfl⟩

theorem valid_read {r : Resolution} (valid : ValidPlace r.names) (step : IsStep c) :
    ValidPlace (r.read c).names := by
  rcases step with rfl | ⟨s, name, rfl⟩
  · rcases List.eq_nil_or_concat' r.names with empty | ⟨a, s, last⟩
    · rw [Resolution.read_up_of_nil empty]
      exact .nil
    · rw [Resolution.read_up_of_concat last]
      exact (last ▸ valid).left
  · exact valid.append (.singleton name)

theorem resolveStep_spell_nil (absolute : Bool) :
    resolveStep (spell absolute []) .up = spell absolute [.up] := by
  rw [resolveStep, parent?_spell_nil]
  exact (spell_concat absolute [] .up).symm

theorem resolveStep_spell_concat (steps : ∀ d ∈ cs ++ [c], IsStep d) (absolute : Bool) :
    resolveStep (spell absolute (cs ++ [c])) .up = spell absolute cs := by
  rw [resolveStep, parent?_spell steps]

theorem valid_left (steps : ∀ c ∈ cs, IsStep c) : ValidPlace (left cs).names := by
  induction cs using List.reverseRecOn with
  | nil => exact .nil
  | append_singleton cs c ih =>
    rw [left_concat]
    exact valid_read (ih fun d mem => steps d (List.mem_append_left _ mem)) (steps c (by simp))

/-- A step of resolving does what reading does, with the surplus modulo two. -/
theorem resolveStep_spell {r : Resolution} (valid : ValidPlace r.names) (step : IsStep c)
    (absolute : Bool) : resolveStep (spell absolute (r.steps (r.surplus % 2))) c =
      spell absolute ((r.read c).steps ((r.read c).surplus % 2)) := by
  rcases step with rfl | ⟨s, name, rfl⟩
  · rcases List.eq_nil_or_concat' r.names with empty | ⟨a, s, last⟩
    · have standing : ∀ ups, r.steps ups = List.replicate ups .up := by
        simp [Resolution.steps, empty]
      have after : ∀ ups, (Resolution.mk (r.surplus + 1) []).steps ups =
          List.replicate ups .up := by
        simp [Resolution.steps]
      rw [Resolution.read_up_of_nil empty, standing, after]
      rcases Nat.mod_two_eq_zero_or_one r.surplus with even | odd
      · rw [even, show (r.surplus + 1) % 2 = 1 by omega]
        exact resolveStep_spell_nil absolute
      · rw [odd, show (r.surplus + 1) % 2 = 0 by omega]
        have kept : ∀ d ∈ ([] : List Component) ++ [.up], IsStep d := by simp [IsStep]
        exact resolveStep_spell_concat kept absolute
    · have whole : r.steps (r.surplus % 2) =
          (Resolution.mk r.surplus a).steps (r.surplus % 2) ++ [.name s] := by
        simp [Resolution.steps, last]
      rw [Resolution.read_up_of_concat last, whole]
      exact resolveStep_spell_concat (whole ▸ isStep_steps valid _) absolute
  · have whole : (Resolution.mk r.surplus (r.names ++ [s])).steps (r.surplus % 2) =
        r.steps (r.surplus % 2) ++ [.name s] := by
      simp [Resolution.steps]
    rw [Resolution.read_name, whole, spell_concat]
    rfl

theorem foldl_resolveStep_spell {r : Resolution} (valid : ValidPlace r.names)
    (steps : ∀ c ∈ cs, IsStep c) (absolute : Bool) :
    cs.foldl resolveStep (spell absolute (r.steps (r.surplus % 2))) =
      spell absolute ((cs.foldl Resolution.read r).steps
        ((cs.foldl Resolution.read r).surplus % 2)) := by
  induction cs generalizing r with
  | nil => rfl
  | cons c cs ih =>
    have first := steps c List.mem_cons_self
    rw [List.foldl_cons, List.foldl_cons, resolveStep_spell valid first]
    exact ih (valid_read valid first) fun d mem => steps d (List.mem_cons_of_mem _ mem)

/-- What is left of a path. -/
def resolution (p : Path) : Resolution := left p.components

/-- The path that begins where `p` begins, leads up so many times and then along the names that no
`..` took back. -/
def resolvedWith (p : Path) (ups : Nat) : Path :=
  spell p.isAbsolute (p.resolution.steps ups)

/-- The path with `.` and `..` resolved. There is nothing above the root. -/
def resolved (p : Path) : Path :=
  p.resolvedWith (if p.isAbsolute then 0 else p.resolution.surplus)

theorem resolution_eq (p : Path) : p.resolution = left (steps p.chars) := by
  obtain ⟨front, whole, ⟨-, rfl⟩ | ⟨-, rfl | rfl⟩⟩ := p.components_eq
  · rw [resolution, whole]
    rfl
  · rw [resolution, whole]
    rfl
  · rw [resolution, whole]
    rfl

theorem LeadsTo.resolution {a : Place} (h : p.LeadsTo a) : p.resolution = ⟨0, a⟩ := by
  rw [Path.resolution, h]
  exact left_names [.root] a

theorem valid_resolution (p : Path) : ValidPlace p.resolution.names := by
  rw [resolution_eq]
  exact valid_left fun _ => mem_steps

/-- Resolving keeps the names that no `..` took back, and of the surplus its parity. -/
theorem normalize_eq (p : Path) : p.normalize = p.resolvedWith (p.resolution.surplus % 2) := by
  have begins : p.normalize = (steps p.chars).foldl resolveStep (spell p.isAbsolute []) := by
    unfold Path.normalize
    obtain ⟨front, whole, ⟨absolute, rfl⟩ | ⟨relative, rfl | rfl⟩⟩ := p.components_eq
    · rw [whole, absolute]
      rfl
    · rw [whole, relative]
      rfl
    · rw [whole, relative]
      rfl
  rw [begins, resolvedWith, resolution_eq]
  exact foldl_resolveStep_spell (r := .start) .nil (fun _ => mem_steps) p.isAbsolute

theorem resolvedWith_inj {ups ups' : Nat} (p : Path) :
    p.resolvedWith ups = p.resolvedWith ups' ↔ ups = ups' := by
  constructor
  · intro same
    have texts := congrArg (fun q => Path.steps q.chars) same
    have valid := p.valid_resolution
    simp only [resolvedWith, steps_spell (isStep_steps valid _)] at texts
    have lengths := congrArg List.length texts
    simpa [Resolution.steps] using lengths
  · rintro rfl
    rfl

/-- Resolving a path leaves its names behind the parity of its surplus, which is the most by which
`..` outnumber names in a beginning of the path. So an absolute path is resolved as it reads if the
surplus is even, and a relative one if at most one `..` leads up. -/
theorem normalize_eq_resolved_iff (p : Path) :
    p.normalize = p.resolvedWith (p.resolution.surplus % 2) ∧
      (p.normalize = p.resolved ↔
        if p.isAbsolute then p.resolution.surplus % 2 = 0 else p.resolution.surplus ≤ 1) ∧
      (∀ front, front <+: p.components → excess front ≤ p.resolution.surplus) ∧
      ∃ front, front <+: p.components ∧ excess front = p.resolution.surplus := by
  refine ⟨p.normalize_eq, ?_, fun _ => excess_le_surplus, exists_excess_eq_surplus _⟩
  rw [normalize_eq, resolved, resolvedWith_inj]
  cases p.isAbsolute with
  | true => simp
  | false =>
    simp only [Bool.false_eq_true, if_false]
    omega

/-- Above the root one `..` too many stays, and two relative ones take each other back. -/
example : Path.normalize ⟨"/../a"⟩ = ⟨"/../a"⟩ ∧ Path.resolved ⟨"/../a"⟩ = ⟨"/a"⟩ ∧
    Path.normalize ⟨"../../a"⟩ = ⟨"a"⟩ ∧ Path.resolved ⟨"../../a"⟩ = ⟨"../../a"⟩ := by
  decide +kernel

end SchemaLoom.Path
