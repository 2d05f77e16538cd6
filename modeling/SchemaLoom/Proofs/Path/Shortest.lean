import SchemaLoom.Proofs.Path.Lexical

/-!
# The shortest way to a place

The path from a directory to a place leads up to the directory that both share, and down from there.
It leads to the place, and no relative path that does has fewer components.
-/

namespace SchemaLoom.Path

open FileSystem

variable {directory target p q : Path} {D T shared up down : Place}

/-! ## Where two places part -/

/-- Two places begin with the same names, and part behind them. -/
structure Parts (D T shared up down : Place) : Prop where
  first : D = shared ++ up
  second : T = shared ++ down
  longest : ∀ front, front <+: D → front <+: T → front <+: shared

theorem exists_parts (D T : Place) : ∃ shared up down, Parts D T shared up down ∧
    stepsFrom (D.map .name) (T.map .name) =
      List.replicate up.length .up ++ down.map .name := by
  obtain ⟨n, common⟩ : ∃ n, commonLength (D.map .name) (T.map .name) = n := ⟨_, rfl⟩
  have same : D.take n = T.take n := by
    have names := take_commonLength (D.map .name) (T.map .name)
    rw [common, ← List.map_take, ← List.map_take] at names
    exact LeadsTo.names_inj names
  refine ⟨D.take n, D.drop n, T.drop n, ⟨?_, ?_, fun front first second => ?_⟩, ?_⟩
  · rw [List.take_append_drop]
  · rw [same, List.take_append_drop]
  · have short := length_le_commonLength (first.map Component.name) (second.map Component.name)
    rw [List.length_map, common] at short
    exact List.prefix_take_iff.mpr ⟨first, short⟩
  · simp [stepsFrom, common]

theorem Parts.length (parts : Parts D T shared up down) :
    D.length + T.length = up.length + down.length + 2 * shared.length := by
  rw [parts.first, parts.second, List.length_append, List.length_append]
  omega

/-! ## The number of steps -/

/-- A component changes what stands by one name at its end, if at all. -/
theorem Resolution.names_read (r : Resolution) (c : Component) :
    (r.read c).names = r.names ∨ (∃ s, (r.read c).names = r.names ++ [s]) ∨
      ∃ s, r.names = (r.read c).names ++ [s] := by
  cases c with
  | root | here => exact .inl rfl
  | name s => exact .inr (.inl ⟨s, rfl⟩)
  | up =>
    rcases List.eq_nil_or_concat' r.names with empty | ⟨a, s, last⟩
    · exact .inl (by rw [read_up_of_nil empty, empty])
    · exact .inr (.inr ⟨s, by rw [read_up_of_concat last, last]⟩)

/-- What stands before and after reading components begins alike, and there is a component for each
of the other names: one that takes it back, or one that puts it there. -/
theorem exists_kept (cs : List Component) (r : Resolution) :
    ∃ kept, kept <+: r.names ∧ kept <+: (cs.foldl Resolution.read r).names ∧
      r.names.length + (cs.foldl Resolution.read r).names.length ≤ cs.length + 2 * kept.length := by
  induction cs generalizing r with
  | nil =>
    refine ⟨r.names, List.prefix_rfl, List.prefix_rfl, ?_⟩
    rw [List.foldl_nil, List.length_nil]
    omega
  | cons c cs ih =>
    obtain ⟨kept, before, after, few⟩ := ih (r.read c)
    rw [List.foldl_cons, List.length_cons]
    generalize (cs.foldl Resolution.read (r.read c)).names = last at after few ⊢
    -- The others keep a part of what the first one leaves. Of that part, only a name that the first
    -- one put there did not stand before.
    rcases r.names_read c with same | ⟨s, longer⟩ | ⟨s, shorter⟩
    · rw [same] at before few
      exact ⟨kept, before, after, by omega⟩
    · rw [longer] at before few
      rw [List.length_append, List.length_singleton] at few
      rcases List.prefix_concat_iff.mp before with rfl | before
      · rw [List.length_append, List.length_singleton] at few
        exact ⟨r.names, List.prefix_rfl, (List.prefix_append _ _).trans after, by omega⟩
      · exact ⟨kept, before, after, by omega⟩
    · rw [shorter, List.length_append, List.length_singleton]
      exact ⟨kept, before.trans (List.prefix_append _ _), after, by omega⟩

theorem length_steps_le (p : Path) : (steps p.chars).length ≤ p.components.length := by
  obtain ⟨front, whole, -⟩ := p.components_eq
  rw [whole, List.length_append]
  exact Nat.le_add_left _ _

/-- A path that is resolved to a place leaves the names of that place. -/
theorem names_resolution (leads : p.normalize.LeadsTo T) (absolute : p.isAbsolute = true) :
    p.resolution.names = T := by
  have steps := isStep_steps p.valid_resolution (p.resolution.surplus % 2)
  unfold LeadsTo at leads
  rw [normalize_eq, resolvedWith, components_spell steps, absolute] at leads
  have names := (List.cons.inj leads).2
  cases ups : p.resolution.surplus % 2 with
  | zero =>
    rw [ups] at names
    exact LeadsTo.names_inj names
  | succ n =>
    rw [ups] at names
    have up : Component.up ∈ T.map .name := by
      rw [← names]
      exact List.mem_cons_self
    simp at up

/-- A relative path to a place has a component for each name behind those that are shared. -/
theorem Parts.le_length (parts : Parts D T shared up down) (hd : directory.LeadsTo D)
    (hq : q.isAbsolute = false) (leads : (directory.join q).normalize.LeadsTo T) :
    up.length + down.length ≤ q.components.length := by
  have reached : ((steps q.chars).foldl Resolution.read ⟨0, D⟩).names = T := by
    have names := names_resolution leads (join_isAbsolute q hd.isAbsolute)
    unfold Path.resolution left at names
    rw [components_join hd.isAbsolute hq, List.foldl_append] at names
    rwa [← hd.resolution]
  obtain ⟨kept, first, second, few⟩ := exists_kept (steps q.chars) ⟨0, D⟩
  rw [reached] at second few
  have fits := (parts.longest kept first second).length_le
  have both := parts.length
  have short := length_steps_le q
  dsimp only at few
  omega

/-! ## There and back -/

/-- The path from a directory to a place leads up as often as the directory has names behind those
that both begin with, and then down to the place. It leads back to the place, and no relative path
with fewer components does. -/
theorem relativeTo_leads_back (hd : directory.LeadsTo D) (ht : target.LeadsTo T) :
    ∃ shared up down, Parts D T shared up down ∧
      (target.relativeTo directory).isAbsolute = false ∧
      (target.relativeTo directory).components =
        List.replicate up.length .up ++ down.map .name ∧
      (directory.join (target.relativeTo directory)).normalize = pathOf T ∧
      (directory.join (target.relativeTo directory)).normalize.same target = true ∧
      ∀ q : Path, q.isAbsolute = false → (directory.join q).normalize.same target = true →
        (target.relativeTo directory).components.length ≤ q.components.length := by
  have isSteps := isStep_stepsFrom hd.isAbsolute ht.isAbsolute
  obtain ⟨shared, up, down, parts, way⟩ := exists_parts D T
  have components : (target.relativeTo directory).components =
      List.replicate up.length .up ++ down.map .name := by
    rw [← way, ← stepsFrom_root, ← hd, ← ht]
    exact components_spell isSteps false
  have back : (directory.join (target.relativeTo directory)).normalize = pathOf T := by
    rw [normalize_join_relativeTo hd ht.isAbsolute, ht.normalize]
  refine ⟨shared, up, down, parts, isAbsolute_ofComponents isSteps, components, back, ?_, ?_⟩
  · rw [back]
    exact ((leadsTo_pathOf ht.valid).same_iff ht).mpr rfl
  · intro q hq same
    have leads : (directory.join q).normalize.LeadsTo T := (same_iff.mp same).trans ht
    rw [components, List.length_append, List.length_replicate, List.length_map]
    exact parts.le_length hd hq leads

/-- Two directories side by side, written with more slashes and dots than they need. -/
theorem relativeTo_leads_back_beside :
    (⟨"/out//a/b/."⟩ : Path).LeadsTo ["out", "a", "b"] ∧
    (⟨"/out/c/./d.json"⟩ : Path).LeadsTo ["out", "c", "d.json"] ∧
    Path.relativeTo ⟨"/out/c/./d.json"⟩ ⟨"/out//a/b/."⟩ = ⟨"../../c/d.json"⟩ ∧
    (∃ shared up down, Parts ["out", "a", "b"] ["out", "c", "d.json"] shared up down ∧
      [.up, .up, .name "c", .name "d.json"] =
        List.replicate up.length Component.up ++ down.map .name) ∧
    (Path.join ⟨"/out//a/b/."⟩ ⟨"../../c/d.json"⟩).normalize = ⟨"/out/c/d.json"⟩ ∧
    ∀ q : Path, q.isAbsolute = false →
      (Path.join ⟨"/out//a/b/."⟩ q).normalize.same ⟨"/out/c/./d.json"⟩ = true →
        4 ≤ q.components.length := by
  have hd : (⟨"/out//a/b/."⟩ : Path).LeadsTo ["out", "a", "b"] := by decide +kernel
  have ht : (⟨"/out/c/./d.json"⟩ : Path).LeadsTo ["out", "c", "d.json"] := by decide +kernel
  have way : Path.relativeTo ⟨"/out/c/./d.json"⟩ ⟨"/out//a/b/."⟩ = ⟨"../../c/d.json"⟩ := by
    decide +kernel
  have count : (⟨"../../c/d.json"⟩ : Path).components =
      [.up, .up, .name "c", .name "d.json"] := by decide +kernel
  obtain ⟨shared, up, down, parts, -, components, back, -, least⟩ := relativeTo_leads_back hd ht
  rw [way] at components back least
  rw [count] at components least
  exact ⟨hd, ht, way, ⟨shared, up, down, parts, components⟩, back.trans (by decide +kernel), least⟩

/-- The steps of a place to itself, and to the directories above and below it. -/
example : Path.relativeTo ⟨"/a/b"⟩ ⟨"/a/b"⟩ = ⟨""⟩ ∧ Path.relativeTo ⟨"/a"⟩ ⟨"/a/b/c"⟩ = ⟨"../.."⟩ ∧
    Path.relativeTo ⟨"/a/b/c"⟩ ⟨"/"⟩ = ⟨"a/b/c"⟩ := by decide +kernel

end SchemaLoom.Path
