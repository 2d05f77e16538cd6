import SchemaLoom.Location
import SchemaLoom.Proofs.Ordered

/-!
# Reading and changing a place

Reading at a location and changing the value there fit together as a getter and a setter do, and
both follow a location in two parts one part after the other. The innermost of the nodes around a
place is found from the root as well as from the place.
-/

namespace SchemaLoom.Json

theorem child?_modifyChild {s : Segment} {v u : Json} (f : Json → Json)
    (h : v.child? s = some u) : (v.modifyChild f s).child? s = some (f u) := by
  match s, v with
  | .key name, .object fields =>
    simp only [child?] at h
    simp [modifyChild, child?, Ordered.get?_modify_self, h]
  | .index i, .array items =>
    simp only [child?] at h
    simp [modifyChild, child?, h]
  | .key _, .null | .key _, .bool _ | .key _, .number _ | .key _, .string _ | .key _, .array _ =>
    simp [child?] at h
  | .index _, .null | .index _, .bool _ | .index _, .number _ | .index _, .string _
  | .index _, .object _ => simp [child?] at h

theorem child?_modifyChild_ne {s t : Segment} (different : t ≠ s) (f : Json → Json) (v : Json) :
    (v.modifyChild f s).child? t = v.child? t := by
  match s, t, v with
  | .key name, .key other, .object fields =>
    have different : other ≠ name := fun eq => different (congrArg _ eq)
    simp [modifyChild, child?, Ordered.get?_modify_ne different]
  | .index i, .index j, .array items =>
    have different : i ≠ j := fun eq => different (congrArg _ eq.symm)
    simp [modifyChild, child?, different]
  | .key _, .index _, .object _ | .index _, .key _, .array _ => rfl
  | .key _, _, .null | .key _, _, .bool _ | .key _, _, .number _ | .key _, _, .string _
  | .key _, _, .array _ => rfl
  | .index _, _, .null | .index _, _, .bool _ | .index _, _, .number _ | .index _, _, .string _
  | .index _, _, .object _ => rfl

theorem modifyChild_modifyChild (f g : Json → Json) (s : Segment) (v : Json) :
    (v.modifyChild g s).modifyChild f s = v.modifyChild (f ∘ g) s := by
  match s, v with
  | .key name, .object fields => simp [modifyChild, Ordered.modify_modify]
  | .index i, .array items => simp [modifyChild, List.modify_modify_eq]
  | .key _, .null | .key _, .bool _ | .key _, .number _ | .key _, .string _ | .key _, .array _ =>
    rfl
  | .index _, .null | .index _, .bool _ | .index _, .number _ | .index _, .string _
  | .index _, .object _ => rfl

theorem modifyChild_congr {f g : Json → Json} {s : Segment} {v u : Json}
    (h : v.child? s = some u) (eq : f u = g u) : v.modifyChild f s = v.modifyChild g s := by
  match s, v with
  | .key name, .object fields =>
    simp only [child?] at h
    simp [modifyChild, Ordered.modify_congr h eq]
  | .index i, .array items =>
    simp only [child?] at h
    obtain ⟨inside, rfl⟩ := List.getElem?_eq_some_iff.mp h
    simp [modifyChild, List.modify_eq_set_getElem?, inside, eq]
  | .key _, .null | .key _, .bool _ | .key _, .number _ | .key _, .string _ | .key _, .array _ =>
    rfl
  | .index _, .null | .index _, .bool _ | .index _, .number _ | .index _, .string _
  | .index _, .object _ => rfl

theorem at?_append (a b : Location) (v : Json) : v.at? (a ++ b) = (v.at? a).bind (at? b) := by
  induction a generalizing v with
  | nil => rfl
  | cons s a ih =>
    cases h : v.child? s with
    | none => simp [at?, h]
    | some u => simp [at?, h, ih]

theorem modifyAt_append (f : Json → Json) (a b : Location) :
    modifyAt f (a ++ b) = modifyAt (modifyAt f b) a := by
  induction a with
  | nil => rfl
  | cons s a ih =>
    funext v
    simp only [List.cons_append, modifyAt, ih]

theorem at?_modifyAt {l : Location} {v u : Json} (f : Json → Json) (h : v.at? l = some u) :
    (v.modifyAt f l).at? l = some (f u) := by
  induction l generalizing v with
  | nil =>
    simp only [at?, Option.some.injEq] at h
    simp [at?, modifyAt, h]
  | cons s l ih =>
    obtain ⟨w, child, rest⟩ := Option.bind_eq_some_iff.mp h
    simp only [modifyAt, at?, child?_modifyChild _ child, Option.bind_some]
    exact ih rest

theorem modifyAt_modifyAt (f g : Json → Json) (l : Location) (v : Json) :
    (v.modifyAt g l).modifyAt f l = v.modifyAt (f ∘ g) l := by
  induction l generalizing v with
  | nil => rfl
  | cons s l ih =>
    simp only [modifyAt, modifyChild_modifyChild]
    congr 1
    funext u
    exact ih u

theorem modifyAt_congr {f g : Json → Json} {l : Location} {v u : Json}
    (h : v.at? l = some u) (eq : f u = g u) : v.modifyAt f l = v.modifyAt g l := by
  induction l generalizing v with
  | nil =>
    simp only [at?, Option.some.injEq] at h
    simp [modifyAt, h, eq]
  | cons s l ih =>
    obtain ⟨w, child, rest⟩ := Option.bind_eq_some_iff.mp h
    exact modifyChild_congr child (ih rest)

/-! ## Putting a value at a location -/

/-- The value with another one at a location. -/
def putAt (v : Json) (l : Location) (u : Json) : Json := v.modifyAt (fun _ => u) l

@[simp] theorem putAt_nil (v u : Json) : v.putAt [] u = u := rfl

theorem at?_putAt {l : Location} {v u : Json} (h : v.at? l = some u) (x : Json) :
    (v.putAt l x).at? l = some x := at?_modifyAt _ h

@[simp] theorem putAt_putAt (v : Json) (l : Location) (x y : Json) :
    (v.putAt l x).putAt l y = v.putAt l y := modifyAt_modifyAt _ _ _ _

theorem modifyAt_eq_putAt {l : Location} {v u : Json} (f : Json → Json) (h : v.at? l = some u) :
    v.modifyAt f l = v.putAt l (f u) := modifyAt_congr h rfl

theorem putAt_self {l : Location} {v u : Json} (h : v.at? l = some u) : v.putAt l u = v := by
  induction l generalizing v with
  | nil => simpa [at?] using h.symm
  | cons s l ih =>
    obtain ⟨w, child, rest⟩ := Option.bind_eq_some_iff.mp h
    have inner : w.modifyAt (fun _ => u) l = id w := ih rest
    simp only [putAt, modifyAt]
    rw [modifyChild_congr child inner]
    match s, v with
    | .key name, .object fields =>
      simp only [modifyChild]
      congr 1
      clear child h
      induction fields with
      | nil => rfl
      | cons entry fields ih' =>
        obtain ⟨n, x⟩ := entry
        by_cases eq : n = name <;> simp [Ordered.modify, eq, ih']
    | .index i, .array items => simp [modifyChild]
    | .key _, .null | .key _, .bool _ | .key _, .number _ | .key _, .string _
    | .key _, .array _ => rfl
    | .index _, .null | .index _, .bool _ | .index _, .number _ | .index _, .string _
    | .index _, .object _ => rfl

theorem modifyAt_append_eq_putAt {a : Location} {v u : Json} (f : Json → Json) (b : Location)
    (h : v.at? a = some u) : v.modifyAt f (a ++ b) = v.putAt a (u.modifyAt f b) := by
  rw [modifyAt_append, modifyAt_eq_putAt _ h]

/-- A value put at one location is not seen at a location beside it. -/
theorem at?_putAt_beside {l m : Location} {v x : Json} (here : v.at? l = some x)
    (notBelow : ¬ l <+: m) (notAbove : ¬ m <+: l) (u : Json) :
    (v.putAt l u).at? m = v.at? m := by
  induction l generalizing v m with
  | nil => exact absurd List.nil_prefix notBelow
  | cons s l ih =>
    cases m with
    | nil => exact absurd List.nil_prefix notAbove
    | cons t m =>
      obtain ⟨w, child, rest⟩ := Option.bind_eq_some_iff.mp here
      by_cases same : t = s
      · subst same
        simp only [List.prefix_cons_inj] at notBelow notAbove
        simp only [putAt, modifyAt, at?, child?_modifyChild _ child, child, Option.bind_some]
        exact ih rest notBelow notAbove
      · simp only [putAt, modifyAt, at?, child?_modifyChild_ne same]

theorem modifyAt_object (f : Json → Json) (s : Segment) (l : Location) (fields : Fields) :
    ∃ changed, (Json.object fields).modifyAt f (s :: l) = .object changed ∧
      Ordered.names changed = Ordered.names fields := by
  cases s with
  | key name => exact ⟨_, rfl, Ordered.names_modify _ _⟩
  | index i => exact ⟨fields, rfl, rfl⟩

end SchemaLoom.Json

namespace SchemaLoom.Location

/-- One location leads to a node around the node at another one. -/
def Above (m l : Location) : Prop := ∃ s rest, l = m ++ s :: rest

/-- One location is the innermost above another one at which `p` holds. -/
def Innermost (p : Location → Prop) (l m : Location) : Prop :=
  Above m l ∧ p m ∧ ∀ n, Above m n → Above n l → ¬ p n

variable {p : Location → Prop} {l m : Location} {s : Segment}

theorem not_above_nil : ¬ Above m [] := by
  rintro ⟨t, rest, way⟩
  simp at way

theorem above_concat : Above m (l ++ [s]) ↔ m = l ∨ Above m l := by
  constructor
  · rintro ⟨t, rest, way⟩
    rcases List.eq_nil_or_concat rest with rfl | ⟨rest, r, rfl⟩
    · obtain ⟨rfl, -⟩ : l = m ∧ s = t := by simpa using way
      exact .inl rfl
    · have way : l ++ [s] = (m ++ t :: rest) ++ [r] := by simpa using way
      exact .inr ⟨t, rest, List.append_inj_left' way rfl⟩
  · rintro (rfl | ⟨t, rest, rfl⟩)
    · exact ⟨s, [], rfl⟩
    · exact ⟨t, rest ++ [s], by simp⟩

theorem above_cons : Above m (s :: l) ↔ m = [] ∨ ∃ n, m = s :: n ∧ Above n l := by
  constructor
  · rintro ⟨t, rest, way⟩
    cases m with
    | nil => exact .inl rfl
    | cons r n =>
      obtain ⟨rfl, rfl⟩ := List.cons.inj way
      exact .inr ⟨n, rfl, t, rest, rfl⟩
  · rintro (rfl | ⟨n, rfl, t, rest, rfl⟩)
    · exact ⟨s, l, rfl⟩
    · exact ⟨t, rest, rfl⟩

theorem cons_above_cons : Above (s :: m) (s :: l) ↔ Above m l := by
  simp [above_cons]

theorem forall_above_cons :
    (∀ n, Above n (s :: l) → p n) ↔ p [] ∧ ∀ n, Above n l → p (s :: n) := by
  constructor
  · exact fun all => ⟨all [] ⟨s, l, rfl⟩, fun n above => all _ (cons_above_cons.mpr above)⟩
  · rintro ⟨root, below⟩ n above
    rcases above_cons.mp above with rfl | ⟨n, rfl, inside⟩
    · exact root
    · exact below n inside

theorem Above.asymm (h : Above m l) : ¬ Above l m := by
  obtain ⟨t, rest, rfl⟩ := h
  rintro ⟨t', rest', way⟩
  simpa using congrArg List.length way

theorem Above.irrefl : ¬ Above l l := fun h => h.asymm h

theorem not_innermost_nil : ¬ Innermost p [] m := fun h => not_above_nil h.1

/-- From the place: it is the node around it, or the innermost around that. -/
theorem innermost_concat :
    Innermost p (l ++ [s]) m ↔ (p l ∧ m = l) ∨ (¬ p l ∧ Innermost p l m) := by
  constructor
  · rintro ⟨above, holds, inner⟩
    rcases above_concat.mp above with rfl | above
    · exact .inl ⟨holds, rfl⟩
    · exact .inr ⟨inner l above (above_concat.mpr (.inl rfl)), above, holds,
        fun n below above' => inner n below (above_concat.mpr (.inr above'))⟩
  · rintro (⟨holds, rfl⟩ | ⟨fails, above, holds, inner⟩)
    · refine ⟨above_concat.mpr (.inl rfl), holds, fun n below above => ?_⟩
      rcases above_concat.mp above with rfl | above
      · exact absurd below Above.irrefl
      · exact absurd below above.asymm
    · refine ⟨above_concat.mpr (.inr above), holds, fun n below above => ?_⟩
      rcases above_concat.mp above with rfl | above
      · exact fails
      · exact inner n below above

/-- From the root: it is the innermost around the place in the child, or the root. -/
theorem innermost_cons :
    Innermost p (s :: l) m ↔ (∃ n, m = s :: n ∧ Innermost (fun n => p (s :: n)) l n) ∨
      (m = [] ∧ p [] ∧ ∀ n, Above n l → ¬ p (s :: n)) := by
  constructor
  · rintro ⟨above, holds, inner⟩
    rcases above_cons.mp above with rfl | ⟨n, rfl, inside⟩
    · exact .inr ⟨rfl, holds, fun n above =>
        inner _ ⟨s, n, rfl⟩ (cons_above_cons.mpr above)⟩
    · exact .inl ⟨n, rfl, inside, holds, fun k below above =>
        inner _ (cons_above_cons.mpr below) (cons_above_cons.mpr above)⟩
  · rintro (⟨n, rfl, above, holds, inner⟩ | ⟨rfl, holds, inner⟩)
    · refine ⟨cons_above_cons.mpr above, holds, fun k below above' => ?_⟩
      rcases above_cons.mp above' with rfl | ⟨k, rfl, inside⟩
      · exact absurd below not_above_nil
      · exact inner k (cons_above_cons.mp below) inside
    · refine ⟨⟨s, l, rfl⟩, holds, fun k below above => ?_⟩
      rcases above_cons.mp above with rfl | ⟨k, rfl, inside⟩
      · exact absurd below not_above_nil
      · exact inner k inside

end SchemaLoom.Location
