import SchemaLoom.Proofs.Diagnostic
import SchemaLoom.Proofs.Reference.Missing

/-!
# What a permission lets pass

The walk that reports missing references carries a flag along, and an object with a permission sets
it anew for what is in it. So each object with a permission lets one missing reference pass: the
first one that has no other such object around it inside this one.
-/

namespace SchemaLoom

/-- The object at a location permits a missing reference below it. -/
def Json.Permits (document : Json) (l : Location) : Prop :=
  ∃ fields flag, document.at? l = some (.object fields) ∧
    (Directive.noRefCheckKey, flag) ∈ fields ∧ flag ≠ .bool false

namespace Resolver

/-! ## All but the first of a kind -/

section

variable {α β κ μ : Type} [DecidableEq κ] [DecidableEq μ]

/-- The members of a list whose key was seen before. -/
def repeated (key : α → κ) : List κ → List α → List α
  | _, [] => []
  | seen, a :: rest => (if key a ∈ seen then [a] else []) ++ repeated key (key a :: seen) rest

variable {key : α → κ} {key' : α → μ} {seen : List κ} {seen' : List μ} {as bs : List α}

theorem repeated_congr (alike : ∀ a ∈ as, ∀ b ∈ as, key a = key b ↔ key' a = key' b)
    (same : ∀ a ∈ as, key a ∈ seen ↔ key' a ∈ seen') :
    repeated key seen as = repeated key' seen' as := by
  induction as generalizing seen seen' with
  | nil => rfl
  | cons a as ih =>
    simp only [repeated, same a List.mem_cons_self]
    congr 1
    refine ih (fun b hb c hc => ?_) fun b hb => ?_
    · exact alike b (List.mem_cons_of_mem _ hb) c (List.mem_cons_of_mem _ hc)
    · rw [List.mem_cons, List.mem_cons, same b (List.mem_cons_of_mem _ hb),
        alike b (List.mem_cons_of_mem _ hb) a List.mem_cons_self]

theorem repeated_eq_self (known : ∀ a ∈ as, key a ∈ seen) : repeated key seen as = as := by
  induction as generalizing seen with
  | nil => rfl
  | cons a as ih =>
    have later : ∀ b ∈ as, key b ∈ key a :: seen := fun b hb =>
      List.mem_cons_of_mem _ (known b (List.mem_cons_of_mem _ hb))
    rw [repeated, if_pos (known a List.mem_cons_self), ih later, List.singleton_append]

theorem repeated_append : repeated key seen (as ++ bs) =
    repeated key seen as ++ repeated key ((as.map key).reverse ++ seen) bs := by
  induction as generalizing seen with
  | nil => rfl
  | cons a as ih => simp [repeated, ih]

theorem repeated_map (f : β → α) (bs : List β) :
    repeated key seen (bs.map f) = (repeated (fun b => key (f b)) seen bs).map f := by
  induction bs generalizing seen with
  | nil => rfl
  | cons b bs ih =>
    simp only [List.map_cons, repeated, ih, List.map_append]
    split <;> rfl

/-- In a list that is in order, a member is repeated if one before it has the same key. -/
theorem mem_repeated {before : α → α → Prop} (irrefl : ∀ a, ¬ before a a)
    (asymm : ∀ a b, before a b → ¬ before b a) (order : as.Pairwise before) {a : α} :
    a ∈ repeated key seen as ↔
      a ∈ as ∧ (key a ∈ seen ∨ ∃ b ∈ as, before b a ∧ key b = key a) := by
  induction as generalizing seen with
  | nil => simp [repeated]
  | cons c as ih =>
    obtain ⟨first, order⟩ := List.pairwise_cons.mp order
    have here : a ∈ (if key c ∈ seen then [c] else []) ↔ key c ∈ seen ∧ a = c := by
      split <;> simp [*]
    rw [repeated, List.mem_append, here, ih order, List.mem_cons, List.mem_cons]
    constructor
    · rintro (⟨known, rfl⟩ | ⟨later, known | ⟨b, member, earlier, same⟩⟩)
      · exact ⟨.inl rfl, .inl known⟩
      · refine ⟨.inr later, known.symm.imp_right fun same => ?_⟩
        exact ⟨c, List.mem_cons_self, first a later, same.symm⟩
      · exact ⟨.inr later, .inr ⟨b, List.mem_cons_of_mem _ member, earlier, same⟩⟩
    · rintro ⟨rfl | later, known | ⟨b, member, earlier, same⟩⟩
      · exact .inl ⟨known, rfl⟩
      · rcases List.mem_cons.mp member with rfl | member
        · exact absurd earlier (irrefl b)
        · exact absurd earlier (asymm a b (first b member))
      · exact .inr ⟨later, .inl (.inr known)⟩
      · rcases List.mem_cons.mp member with rfl | member
        · exact .inr ⟨later, .inl (.inl same.symm)⟩
        · exact .inr ⟨later, .inr ⟨b, member, earlier, same⟩⟩

end

/-! ## The innermost permission -/

/-- Whether a node is an object with a permission. -/
def permitsHere : Json → Bool
  | .object fields => permits fields
  | _ => false

/-- The object whose permission counts at a location. -/
def permission? : Location → Json → Option Location
  | [], _ => none
  | s :: l, v => (((v.child? s).bind (permission? l)).map (s :: ·)).or
      (if permitsHere v then some [] else none)

/-- The same if the permission of the node itself does not count. -/
def innerPermission? (v : Json) : Location → Option Location
  | [] => none
  | s :: l => ((v.child? s).bind (permission? l)).map (s :: ·)

variable {v u : Json} {s : Segment} {l m : Location}

theorem permits_iff {fields : Json.Fields} (nodup : (Ordered.names fields).Nodup) :
    permits fields = true ↔
      ∃ flag, (Directive.noRefCheckKey, flag) ∈ fields ∧ flag ≠ .bool false := by
  unfold permits
  constructor
  · intro permitted
    split at permitted
    · simp at permitted
    · simp at permitted
    · rename_i flag on given
      exact ⟨flag, Ordered.mem_of_get? given, fun off => on (off ▸ rfl)⟩
  · rintro ⟨flag, member, on⟩
    rw [Ordered.get?_of_mem nodup member]
    split
    · contradiction
    · rename_i off
      exact absurd (Option.some.inj off) on
    · rfl

theorem permits_nil (distinct : v.DistinctKeys) : v.Permits [] ↔ permitsHere v = true := by
  cases v with
  | object fields =>
    simp only [Json.Permits, Json.at?, permitsHere, permits_iff distinct.nodup, Option.some.injEq,
      Json.object.injEq, exists_and_left, exists_eq_left']
  | _ => simp [Json.Permits, Json.at?, permitsHere]

theorem permits_cons : v.Permits (s :: l) ↔ ∃ u, v.child? s = some u ∧ u.Permits l := by
  constructor
  · rintro ⟨fields, flag, leads, on⟩
    obtain ⟨u, child, leads⟩ := Option.bind_eq_some_iff.mp leads
    exact ⟨u, child, fields, flag, leads, on⟩
  · rintro ⟨u, child, fields, flag, leads, on⟩
    exact ⟨fields, flag, by simpa [Json.at?, child] using leads, on⟩

theorem permission?_cons (v : Json) (s : Segment) (l : Location) : permission? (s :: l) v =
    (innerPermission? v (s :: l)).or (if permitsHere v then some [] else none) := rfl

theorem innerPermission?_cons (child : v.child? s = some u) (l : Location) :
    innerPermission? v (s :: l) = (permission? l u).map (s :: ·) := by
  rw [innerPermission?, child, Option.bind_some]

theorem innerPermission?_eq_some (h : innerPermission? v (s :: l) = some m) : ∃ n, m = s :: n := by
  obtain ⟨n, -, rfl⟩ := Option.map_eq_some_iff.mp h
  exact ⟨n, rfl⟩

/-- The walk from the root finds the innermost object with a permission. -/
theorem permission?_spec (distinct : v.DistinctKeys) (l : Location) :
    (permission? l v = none ↔ ∀ n, Location.Above n l → ¬ v.Permits n) ∧
      ∀ m, permission? l v = some m ↔ Location.Innermost v.Permits l m := by
  -- The root counts only if nothing below it does, so both halves go through the induction
  -- together.
  induction l generalizing v with
  | nil =>
    refine ⟨iff_of_true rfl fun n above => absurd above Location.not_above_nil, fun m => ?_⟩
    exact iff_of_false (by simp [permission?]) Location.not_innermost_nil
  | cons s l ih =>
    have inChild : ((v.child? s).bind (permission? l) = none ↔
          ∀ n, Location.Above n l → ¬ v.Permits (s :: n)) ∧
        ∀ m, (v.child? s).bind (permission? l) = some m ↔
          Location.Innermost (fun n => v.Permits (s :: n)) l m := by
      cases child : v.child? s with
      | none => simp [permits_cons, child, Location.Innermost]
      | some u => simpa [permits_cons, child] using ih (distinct.child child)
    rw [permission?]
    refine ⟨?_, fun m => ?_⟩
    · rw [Location.forall_above_cons, permits_nil distinct, Option.or_eq_none_iff,
        Option.map_eq_none_iff, inChild.1, and_comm]
      simp
    · rw [Option.or_eq_some_iff, Option.map_eq_some_iff, Option.map_eq_none_iff, inChild.1,
        Option.ite_none_right_eq_some, Location.innermost_cons, permits_nil distinct]
      simp only [inChild.2, Option.some.injEq]
      constructor
      · rintro (⟨n, innermost, rfl⟩ | ⟨outside, here, rfl⟩)
        · exact .inl ⟨n, rfl, innermost⟩
        · exact .inr ⟨rfl, here, outside⟩
      · rintro (⟨n, rfl, innermost⟩ | ⟨rfl, here, outside⟩)
        · exact .inl ⟨n, innermost, rfl⟩
        · exact .inr ⟨outside, here, rfl⟩

/-! ## What the walk reports -/

/-- What becomes of tokens under permissions: whether the one from outside is left behind them, and
what is reported. The key of a token is the object whose permission counts for it; it has none if
the permission is the one from outside. -/
structure Accounts (key : Token → Option Location) (permitted : Bool) (tokens : List Token)
    (result : Bool × List Reference) : Prop where
  left : result.1 = true ↔ permitted = true ∧ ∀ t ∈ tokens, key t ≠ none
  reported : result.2 =
    (repeated key (if permitted then [] else [none]) tokens).map Token.ref

namespace Accounts

variable {key key' : Token → Option Location} {permitted : Bool} {as bs : List Token}
  {x y : Bool × List Reference}

theorem mem_seen {k : Option Location} :
    k ∈ (if permitted then [] else [none]) ↔ k = none ∧ permitted = false := by
  cases permitted <;> simp

theorem nil : Accounts key permitted [] (permitted, []) := ⟨by simp, rfl⟩

/-- The tokens of one child and those of the following children have no permission in common but the
one from outside. -/
theorem append (first : Accounts key permitted as x) (rest : Accounts key x.1 bs y)
    (apart : ∀ a ∈ as, ∀ b ∈ bs, key a = key b → key a = none) :
    Accounts key permitted (as ++ bs) (y.1, x.2 ++ y.2) := by
  constructor
  · rw [rest.left, first.left, List.forall_mem_append, and_assoc]
  · have spent : x.1 = false ↔ permitted = false ∨ ∃ a ∈ as, key a = none := by
      rw [← Bool.not_eq_true, first.left]
      cases permitted <;> simp
    -- Of the first tokens only those under the permission from outside bear on the others, and the
    -- flag behind them says whether there were any.
    have later : repeated key (if x.1 then [] else [none]) bs =
        repeated key ((as.map key).reverse ++ if permitted then [] else [none]) bs := by
      refine repeated_congr (fun _ _ _ _ => Iff.rfl) fun b hb => ?_
      rw [List.mem_append, mem_seen, mem_seen, List.mem_reverse, List.mem_map, spent]
      constructor
      · rintro ⟨outside, off | ⟨a, ha, none⟩⟩
        · exact .inr ⟨outside, off⟩
        · exact .inl ⟨a, ha, none.trans outside.symm⟩
      · rintro (⟨a, ha, same⟩ | ⟨outside, off⟩)
        · have none := apart a ha b hb same
          exact ⟨same ▸ none, .inr ⟨a, ha, none⟩⟩
        · exact ⟨outside, .inl off⟩
    rw [first.reported, rest.reported, later, repeated_append, List.map_append]

theorem congr (h : Accounts key permitted as x)
    (alike : ∀ a ∈ as, ∀ b ∈ as, key a = key b ↔ key' a = key' b)
    (outside : ∀ a ∈ as, key a = none ↔ key' a = none) : Accounts key' permitted as x := by
  constructor
  · rw [h.left]
    exact and_congr_right fun _ => forall₂_congr fun a ha => not_congr (outside a ha)
  · rw [h.reported]
    refine congrArg (List.map Token.ref) (repeated_congr alike fun a ha => ?_)
    rw [mem_seen, mem_seen, outside a ha]

theorem below {s : Segment} (h : Accounts (fun t => key (t.below s)) permitted as x) :
    Accounts key permitted (as.map (.below s)) x := by
  constructor
  · rw [h.left]
    simp
  · rw [h.reported, repeated_map, List.map_map]
    rfl

/-- An object with a permission covers all that is in it, and leaves the one from outside alone. -/
theorem enclosed (h : Accounts key true as x) (inside : ∀ a ∈ as, key a ≠ some [])
    (covers : ∀ a ∈ as, key' a = (key a).or (some [])) :
    Accounts key' permitted as (permitted, x.2) := by
  have covered : ∀ a ∈ as, key' a ≠ none := by
    intro a ha
    rw [covers a ha]
    cases key a <;> simp
  constructor
  · exact (and_iff_left covered).symm
  · rw [h.reported]
    refine congrArg (List.map Token.ref) (repeated_congr (fun a ha b hb => ?_) fun a ha => ?_)
    · rw [covers a ha, covers b hb]
      have innerA := inside a ha
      have innerB := inside b hb
      generalize key a = k at innerA ⊢
      generalize key b = k' at innerB ⊢
      cases k <;> cases k' <;> simp_all [eq_comm]
    · simp [covered a ha]

theorem text (outside : ∀ a ∈ as, key a = none) :
    Accounts key permitted as (spend permitted (as.map Token.ref)) := by
  have known : ∀ a ∈ as, key a ∈ [none] := fun a ha => by simp [outside a ha]
  cases permitted with
  | false => exact ⟨by simp [spend], by simp [spend, repeated_eq_self known]⟩
  | true =>
    cases as with
    | nil => exact ⟨by simp [spend], rfl⟩
    | cons a as =>
      have first := outside a List.mem_cons_self
      have rest : repeated key [none] as = as := repeated_eq_self fun b hb =>
        known b (List.mem_cons_of_mem _ hb)
      exact ⟨by simp [spend, first], by simp [spend, repeated, first, rest]⟩

end Accounts

variable {r : Resolver} {permitted : Bool}

variable (r) in
/-- The walk over the children of a node. -/
def reportChildren (permitted : Bool) : List (Segment × Json) → Bool × List Reference
  | [] => (permitted, [])
  | c :: rest =>
    let first := r.reportNode permitted c.2
    let more := reportChildren first.1 rest
    (more.1, first.2 ++ more.2)

theorem reportItems_eq (permitted : Bool) (i : Nat) (items : List Json) :
    r.reportItems permitted items = r.reportChildren permitted
      ((items.zipIdx i).map fun e => (.index e.2, e.1)) := by
  induction items generalizing permitted i with
  | nil => rfl
  | cons v items ih => simp [reportItems, List.zipIdx_cons, reportChildren, ih _ (i + 1)]

theorem reportFields_eq (permitted : Bool) (fields : Json.Fields) :
    r.reportFields permitted fields = r.reportChildren permitted
      ((fields.filter fun e => e.1 ≠ Directive.noRefCheckKey).map fun e => (.key e.1, e.2)) := by
  induction fields generalizing permitted with
  | nil => rfl
  | cons e fields ih =>
    obtain ⟨k, v⟩ := e
    by_cases permission : k = Directive.noRefCheckKey <;>
      simp [reportFields, reportChildren, permission, ih]

theorem reportNode_eq (permitted : Bool) (noText : ∀ text, v ≠ .string text) :
    r.reportNode permitted v =
      if permitsHere v then (permitted, (r.reportChildren true (readable v)).2)
      else r.reportChildren permitted (readable v) := by
  cases v with
  | string text => exact absurd rfl (noText text)
  | array items => rw [reportNode, reportItems_eq _ 0, readable_array]; rfl
  | object fields => simp only [reportNode, reportFields_eq, readable_object, permitsHere]
  | _ => rfl

theorem map_missingHere (text : String) :
    (r.missingHere (.string text)).map Token.ref = r.missingIn text := by
  have pieces :
      (Reference.pieces text.toList).zipIdx.map Prod.fst = Reference.pieces text.toList := by
    simp
  rw [missingIn, ← pieces, List.filterMap_map, missingHere, List.map_filterMap]
  refine congrArg (fun f => List.filterMap f _) (funext fun e => ?_)
  obtain ⟨piece, i⟩ := e
  cases piece with
  | char c => rfl
  | reference ref =>
    simp only [Function.comp_apply]
    split <;> rfl

theorem reportChildren_accounts {key : Token → Option Location} {cs : List (Segment × Json)}
    (each : ∀ c ∈ cs, ∀ permitted, Accounts (fun t => key (t.below c.1)) permitted
      (r.missing c.2) (r.reportNode permitted c.2))
    (apart : cs.Pairwise fun c d => ∀ t u, key (Token.below c.1 t) = key (Token.below d.1 u) →
      key (t.below c.1) = none) (permitted : Bool) :
    Accounts key permitted (cs.flatMap fun c => (r.missing c.2).map (.below c.1))
      (r.reportChildren permitted cs) := by
  induction cs generalizing permitted with
  | nil => exact .nil
  | cons c cs ih =>
    obtain ⟨beside, apart⟩ := List.pairwise_cons.mp apart
    rw [List.flatMap_cons]
    refine .append (each c List.mem_cons_self permitted).below
      (ih (fun d hd => each d (List.mem_cons_of_mem _ hd)) apart _) ?_
    intro a ha b hb same
    obtain ⟨t, -, rfl⟩ := List.mem_map.mp ha
    obtain ⟨d, hd, hb⟩ := List.mem_flatMap.mp hb
    obtain ⟨u, -, rfl⟩ := List.mem_map.mp hb
    exact beside d hd t u same

theorem apart_readable (distinct : v.DistinctKeys) :
    (readable v).Pairwise fun c d => ∀ t u : Token,
      innerPermission? v (c.1 :: t.place) = innerPermission? v (d.1 :: u.place) →
      innerPermission? v (c.1 :: t.place) = none := by
  refine ((Json.pairwise_rank_children distinct).filter _).imp fun rank t u same => ?_
  rw [Option.eq_none_iff_forall_ne_some]
  intro m counts
  obtain ⟨n, rfl⟩ := innerPermission?_eq_some counts
  obtain ⟨n', beside⟩ := innerPermission?_eq_some (same ▸ counts)
  rw [(List.cons.inj beside).1] at rank
  exact Nat.lt_irrefl _ rank

/-- The children of a node share the permission from outside of it, or the node's own. -/
theorem missingBelow_accounts (distinct : v.DistinctKeys)
    (inside : ∀ s u, v.child? s = some u → ∀ permitted,
      Accounts (fun t => permission? t.place u) permitted (r.missing u) (r.reportNode permitted u))
    (permitted : Bool) : Accounts (fun t => innerPermission? v t.place) permitted
      (r.missingBelow v) (r.reportChildren permitted (readable v)) := by
  refine reportChildren_accounts (fun c member permitted => ?_)
    ((apart_readable distinct).imp fun apart t u => apart t u) permitted
  obtain ⟨child, -⟩ := (mem_readable distinct).mp member
  refine (inside _ _ child permitted).congr (fun t _ u _ => ?_) fun t _ => ?_
  · simp only [Token.below, innerPermission?_cons child]
    exact ((Option.map_injective (List.cons_injective)).eq_iff).symm
  · simp [Token.below, innerPermission?_cons child]

/-- The walk reports all but the first of the missing references for which one permission counts;
the one from outside may be spent before. -/
theorem reportNode_accounts (distinct : v.DistinctKeys) (permitted : Bool) :
    Accounts (fun t => permission? t.place v) permitted (r.missing v)
      (r.reportNode permitted v) := by
  induction distinct using Json.DistinctKeys.byChildren generalizing permitted with
  | step v distinct ih =>
    by_cases isText : ∃ text, v = .string text
    · obtain ⟨text, rfl⟩ := isText
      rw [reportNode, ← map_missingHere]
      refine .text fun t token => ?_
      have token : t ∈ r.missingHere (.string text) := token
      rw [(mem_missingHere.mp token).1, permission?]
    · have noText : ∀ text, v ≠ .string text := not_exists.mp isText
      rw [missing_eq, missingHere_eq_nil noText, List.nil_append, reportNode_eq permitted noText]
      have children := missingBelow_accounts distinct ih
      -- With a permission the walk starts anew below the node, and the node is the key of what had
      -- none; without one, nothing changes.
      by_cases permission : permitsHere v = true
      · rw [if_pos permission]
        refine (children true).enclosed (fun t token => ?_) fun t token => ?_
        · obtain ⟨s, -, t, -, -, rfl⟩ := mem_missingBelow.mp token
          intro root
          obtain ⟨n, nonempty⟩ := innerPermission?_eq_some root
          simp at nonempty
        · obtain ⟨s, -, t, -, -, rfl⟩ := mem_missingBelow.mp token
          exact (permission?_cons v s t.place).trans (by rw [if_pos permission]; rfl)
      · rw [if_neg permission]
        have same : ∀ t ∈ r.missingBelow v, permission? t.place v = innerPermission? v t.place := by
          intro t token
          obtain ⟨s, -, t, -, -, rfl⟩ := mem_missingBelow.mp token
          exact (permission?_cons v s t.place).trans
            (by rw [if_neg permission, Option.or_none]; rfl)
        refine (children permitted).congr (fun t ht u hu => ?_) fun t ht => ?_
        · rw [same t ht, same u hu]
        · rw [same t ht]

/-! ## What a document reports -/

variable (r) in
/-- The token is the first missing one for which the permission of some object counts. -/
def Excused (document : Json) (t : Token) : Prop :=
  ∃ m, Location.Innermost document.Permits t.place m ∧
    ∀ u, r.IsMissing document u → Location.Innermost document.Permits u.place m →
      ¬ u.Precedes document t

theorem mem_reported {document : Json} (distinct : document.DistinctKeys) {ref : Reference} :
    ref ∈ r.reported document ↔
      ∃ t, r.IsMissing document t ∧ ¬ r.Excused document t ∧ t.ref = ref := by
  have counts : ∀ (t : Token) (m : Location), permission? t.place document = some m ↔
      Location.Innermost document.Permits t.place m := fun t =>
        (permission?_spec distinct t.place).2
  have passes : ∀ t, ¬ r.Excused document t ↔ permission? t.place document = none ∨
      ∃ u ∈ r.missing document, u.Precedes document t ∧
        permission? u.place document = permission? t.place document := by
    intro t
    simp only [Excused, ← counts, ← mem_missing distinct]
    cases permission? t.place document with
    | none => simp
    | some m => simp [and_comm]
  rw [reported, (reportNode_accounts distinct false).reported, List.mem_map]
  refine exists_congr fun t => ?_
  rw [mem_repeated (fun _ => Token.Precedes.irrefl) (fun _ _ => Token.Precedes.asymm)
    (pairwise_missing distinct), mem_missing distinct, Accounts.mem_seen, passes, and_assoc]
  simp

/-- Of the missing references of a document exactly those are recorded that are not the first one
for which the permission of an object counts, each once. No permission stays in the document. -/
theorem resolve_records (r : Resolver) (id : String) (document : Json)
    (distinct : document.DistinctKeys) (recorded : Diagnostics) :
    (∀ d, d ∈ (recorded.recordAll (r.resolve id document).2).items ↔ d ∈ recorded.items ∨
      ∃ t, r.IsMissing document t ∧ ¬ r.Excused document t ∧ diagnostic id t.ref = d) ∧
    (recorded.items.Nodup → (recorded.recordAll (r.resolve id document).2).items.Nodup) ∧
    (r.resolve id document).1.Keys fun key => key ≠ Directive.noRefCheckKey := by
  refine ⟨fun d => ?_, Diagnostics.nodup_recordAll _, ?_⟩
  · rw [Diagnostics.mem_recordAll, resolve, List.mem_map]
    simp only [mem_reported distinct]
    refine or_congr_right ⟨?_, ?_⟩
    · rintro ⟨_, ⟨t, missing, passes, rfl⟩, same⟩
      exact ⟨t, missing, passes, same⟩
    · rintro ⟨t, missing, passes, same⟩
      exact ⟨t.ref, ⟨t, missing, passes, rfl⟩, same⟩
  · rw [resolve, resolveNode_eq]
    refine Json.keys_rewrite_only (fun _ => .string _) (fun key stays => ?_) document
    simpa [staysResolved] using stays

/-- A document with a permission inside another one, and one that is taken back. -/
def permissive : Json :=
  .object [("a", .string "ref(:p), $ref(:p)"),
    ("b", .object [("c", .array [.string "ref(:q) ref(:s)"]),
      ("d", .object [("$NO_REF_CHECK", .string ""), ("e", .string "ref(b:t)")]),
      ("$NO_REF_CHECK", .bool true),
      ("f", .object [("$NO_REF_CHECK", .bool false), ("g", .string "ref(:u#/h) ref(b:y)")])])]

theorem resolve_records_permissive :
    permissive.DistinctKeys ∧ Diagnostics.empty.items.Nodup ∧
    (Diagnostics.empty.recordAll (neighbours.resolve "n" permissive).2).items.map
        Diagnostic.message =
      ["unknown schema ref(:p) referenced", "unknown schema ref(:s) referenced",
        "unknown schema ref(:u#/h) referenced"] ∧
    (∃ t, neighbours.IsMissing permissive t ∧ ¬ neighbours.Excused permissive t ∧
      diagnostic "n" t.ref = diagnostic "n" ⟨[], ['s']⟩) ∧
    (Diagnostics.empty.recordAll (neighbours.resolve "n" permissive).2).items.Nodup ∧
    (neighbours.resolve "n" permissive).1.Keys fun key => key ≠ Directive.noRefCheckKey := by
  have distinct : permissive.DistinctKeys := by decide +kernel
  obtain ⟨exactly, once, gone⟩ := resolve_records neighbours "n" permissive distinct .empty
  refine ⟨distinct, List.nodup_nil, by decide +kernel, ?_, once List.nodup_nil, gone⟩
  have found := (exactly (diagnostic "n" ⟨[], ['s']⟩)).mp (by decide +kernel)
  exact found.resolve_left (List.not_mem_nil)

/-- A permission whose value is a reference. -/
def referring : Json :=
  .object [("$NO_REF_CHECK", .string "ref(:m)"), ("a", .string "ref(:n)")]

/-- A reference in the value of a permission is not read, so it does not use up the permission. One
that is only a fragment is not missing, whatever is found at the source root. -/
theorem resolve_records_exceptions :
    (Location.Innermost referring.Permits [.key "$NO_REF_CHECK"] [] ∧
      Location.Innermost referring.Permits [.key "a"] [] ∧
      referring.Before [.key "$NO_REF_CHECK"] [.key "a"] ∧
      neighbours.missingIn "ref(:m)" = [⟨[], ['m']⟩] ∧
      neighbours.missingIn "ref(:n)" = [⟨[], ['n']⟩] ∧
      (neighbours.resolve "n" referring).2 = []) ∧
    neighbours.files.findSource? neighbours.layout (Reference.relativePath [] []) = none ∧
    (neighbours.resolve "n" (.string "ref(:#f)")).2 = [] := by
  have distinct : referring.DistinctKeys := by decide +kernel
  have counts := fun l => (permission?_spec distinct l).2 []
  exact ⟨⟨(counts _).mp (by decide +kernel), (counts _).mp (by decide +kernel), by decide +kernel,
    by decide +kernel, by decide +kernel, by decide +kernel⟩, by decide +kernel, by decide +kernel⟩

end Resolver

end SchemaLoom
