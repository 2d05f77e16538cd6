import SchemaLoom.Proofs.Text.Trimming
import SchemaLoom.Reference

/-!
# Where reference tokens are read

A token is read exactly where its text stands. Between its parentheses there is no other one, so no
match reaches across the beginning of a token: the text before it, the token and the text behind it
are read on their own.
-/

namespace SchemaLoom.Reference

variable {r : Reference} {cs rest : List Char}

/-- The namespace and the path have only the characters that a token may have there. -/
structure IsToken (r : Reference) : Prop where
  nameSpace : ∀ c ∈ r.nameSpace, isNameSpaceChar c = true
  path : ∀ c ∈ r.path, isPathChar c = true
  nonempty : r.path ≠ []

instance (r : Reference) : Decidable r.IsToken :=
  decidable_of_iff
    (r.nameSpace.all isNameSpaceChar = true ∧ r.path.all isPathChar = true ∧ r.path ≠ [])
    ⟨fun h => ⟨List.all_eq_true.mp h.1, List.all_eq_true.mp h.2.1, h.2.2⟩,
      fun h => ⟨List.all_eq_true.mpr h.nameSpace, List.all_eq_true.mpr h.path, h.nonempty⟩⟩

/-- What stands before the opening parenthesis. -/
def opening (dollar : Bool) : List Char :=
  if dollar then ['$', 'r', 'e', 'f'] else ['r', 'e', 'f']

/-- A token as it is written, with or without the dollar sign. -/
def token (dollar : Bool) (r : Reference) : List Char :=
  opening dollar ++ '(' :: r.inner ++ [')']

theorem token_false (r : Reference) : token false r = r.text := by
  simp [token, opening, text, inner]

theorem not_mem_opening (dollar : Bool) : '(' ∉ opening dollar ∧ ')' ∉ opening dollar := by
  cases dollar <;> decide

theorem IsToken.not_mem_inner (h : r.IsToken) : '(' ∉ r.inner := by
  intro mem
  rcases List.mem_append.mp mem with mem | mem
  · exact absurd (h.nameSpace _ mem) (by decide)
  · rcases List.mem_cons.mp mem with he | mem
    · exact absurd he (by decide)
    · exact absurd (h.path _ mem) (by decide)

/-! ## Reading one token -/

theorem readInner_eq_some_iff :
    readInner cs = some (r, rest) ↔ r.IsToken ∧ cs = r.inner ++ ')' :: rest := by
  constructor
  · intro h
    unfold readInner at h
    split at h
    · rename_i behind colon
      simp only at h
      split at h
      · rename_i behind' closed
        split at h
        · simp at h
        · rename_i nonempty
          simp only [Option.some.injEq, Prod.mk.injEq] at h
          obtain ⟨rfl, rfl⟩ := h
          have whole : cs.takeWhile isNameSpaceChar ++ ':' :: behind = cs := by
            rw [← colon]
            exact List.takeWhile_append_dropWhile
          have tail : behind.takeWhile isPathChar ++ ')' :: behind' = behind := by
            rw [← closed]
            exact List.takeWhile_append_dropWhile
          refine ⟨⟨fun c => List.mem_takeWhile_imp, fun c => List.mem_takeWhile_imp,
            by simpa using nonempty⟩, ?_⟩
          rw [inner, List.append_assoc, List.cons_append, tail, whole]
      · simp at h
    · simp at h
  · rintro ⟨h, rfl⟩
    obtain ⟨taken, dropped⟩ := Text.takeWhile_append_cons (b := r.path ++ ')' :: rest) h.nameSpace
      (by decide : isNameSpaceChar ':' = false)
    obtain ⟨taken', dropped'⟩ := Text.takeWhile_append_cons (b := rest) h.path
      (by decide : isPathChar ')' = false)
    have nonempty : r.path.isEmpty = false := by simpa using h.nonempty
    rw [inner, List.append_assoc, List.cons_append, readInner, dropped]
    simp only [taken, taken', dropped', nonempty]
    rfl

theorem readToken_eq_some_iff :
    readToken cs = some (r, rest) ↔ r.IsToken ∧ ∃ dollar, cs = token dollar r ++ rest := by
  constructor
  · intro h
    unfold readToken at h
    split at h
    · obtain ⟨isToken, rfl⟩ := readInner_eq_some_iff.mp h
      exact ⟨isToken, true, by simp [token, opening]⟩
    · obtain ⟨isToken, rfl⟩ := readInner_eq_some_iff.mp h
      exact ⟨isToken, false, by simp [token, opening]⟩
    · simp at h
  · rintro ⟨h, dollar, rfl⟩
    have inner : readInner (r.inner ++ ')' :: rest) = some (r, rest) :=
      readInner_eq_some_iff.mpr ⟨h, rfl⟩
    cases dollar <;> simpa [token, opening, readToken] using inner

theorem readToken_token (h : r.IsToken) (dollar : Bool) (rest : List Char) :
    readToken (token dollar r ++ rest) = some (r, rest) :=
  readToken_eq_some_iff.mpr ⟨h, dollar, rfl⟩

/-! ## Tokens that follow a text -/

theorem cut_unique {a b a' b' : List Char} (h : a ++ '(' :: b = a' ++ '(' :: b') (before : '(' ∉ a')
    (behind : '(' ∉ b') : a = a' ∧ b = b' := by
  rcases List.append_eq_append_iff.mp h with ⟨m, rfl, hm⟩ | ⟨m, rfl, hm⟩
  · cases m with
    | nil => simpa using hm
    | cons c m =>
      obtain ⟨rfl, -⟩ := List.cons.inj hm
      exact absurd (List.mem_append_right a List.mem_cons_self) before
  · cases m with
    | nil => simpa using hm.symm
    | cons c m =>
      obtain ⟨rfl, rfl⟩ := List.cons.inj hm
      exact absurd (List.mem_append_right m List.mem_cons_self) behind

theorem getLast?_token (dollar : Bool) (r : Reference) :
    (token dollar r).getLast? = some ')' := by
  rw [token, List.getLast?_concat]

theorem opening_behind {front : List Char} {d d' : Bool} (h : front ++ opening d' = opening d)
    (nonempty : front ≠ []) : d' = false ∧ front = ['$'] := by
  cases d with
  | false =>
    exfalso
    have length := congrArg List.length h
    have positive := List.length_pos_iff.mpr nonempty
    rw [List.length_append] at length
    cases d' with
    | false => exact absurd length (by simp [opening]; omega)
    | true => exact absurd length (by simp [opening])
  | true =>
    cases d' with
    | false =>
      have same : front ++ opening false = ['$'] ++ opening false := h
      exact ⟨rfl, List.append_cancel_right same⟩
    | true =>
      have same : front ++ opening true = [] ++ opening true := h
      exact absurd (List.append_cancel_right same) nonempty

/-- A token that begins in front of another one ends there. -/
theorem token_in_front {front behind : List Char} {d d' : Bool} (h : r.IsToken)
    (nonempty : front ≠ []) (apart : d' = false → front.getLast? ≠ some '$')
    (eq : front ++ (opening d' ++ '(' :: behind) = token d r ++ rest) :
    ∃ rest', front = token d r ++ rest' ∧ rest = rest' ++ (opening d' ++ '(' :: behind) := by
  rcases List.append_eq_append_iff.mp eq with ⟨t, ht, rest_eq⟩ | ⟨rest', hf, hr⟩
  · by_cases empty : t = []
    · subst empty
      exact ⟨[], by simpa using ht.symm, by simpa using rest_eq.symm⟩
    · -- The token would end behind the opening, and then it is that opening.
      exfalso
      have closes : ')' ∈ t := by
        have last := getLast?_token d r
        rw [ht, List.getLast?_append_of_ne_nil _ empty] at last
        exact List.mem_of_getLast? last
      rcases List.append_eq_append_iff.mp rest_eq with ⟨m, rfl, hm⟩ | ⟨m, hm, -⟩
      · cases m with
        | nil => exact (not_mem_opening d').2 (by simpa using closes)
        | cons c m =>
          obtain ⟨rfl, -⟩ := List.cons.inj hm
          have same : front ++ opening d' = opening d := by
            have cut :
                (front ++ opening d') ++ '(' :: m = opening d ++ '(' :: (r.inner ++ [')']) := by
              rw [List.append_assoc, ← ht, token, List.append_assoc, List.cons_append]
            exact (cut_unique cut (not_mem_opening d).1 (by simpa using h.not_mem_inner)).1
          obtain ⟨bare, dollar⟩ := opening_behind same nonempty
          exact apart bare (by rw [dollar]; rfl)
      · exact (not_mem_opening d').2 (hm ▸ List.mem_append_left m closes)
  · exact ⟨rest', hf, hr⟩

/-! ## The pieces of a text -/

theorem piecesFrom_eq_drop (skip : Nat) (cs : List Char) :
    piecesFrom skip cs = pieces (cs.drop skip) := by
  induction cs generalizing skip with
  | nil => cases skip <;> simp [piecesFrom, pieces]
  | cons c cs ih =>
    cases skip with
    | zero => rfl
    | succ skip => simpa [piecesFrom] using ih skip

@[simp] theorem pieces_nil : pieces [] = [] := rfl

theorem pieces_cons {c : Char} (h : readToken (c :: cs) = none) :
    pieces (c :: cs) = .char c :: pieces cs := by
  rw [pieces, piecesFrom, h]
  rfl

theorem pieces_token (h : r.IsToken) (dollar : Bool) (rest : List Char) :
    pieces (token dollar r ++ rest) = .reference r :: pieces rest := by
  have read := readToken_token h dollar rest
  cases ht : token dollar r with
  | nil =>
    have last := getLast?_token dollar r
    simp [ht] at last
  | cons c cs =>
    rw [ht, List.cons_append] at read
    rw [List.cons_append, pieces, piecesFrom, read]
    simp [piecesFrom_eq_drop]

/-- What stands in front of a token is read on its own. -/
theorem pieces_append {front behind : List Char} {d : Bool}
    (apart : d = false → front.getLast? ≠ some '$') :
    pieces (front ++ (opening d ++ '(' :: behind)) =
      pieces front ++ pieces (opening d ++ '(' :: behind) := by
  generalize hn : front.length = n
  induction n using Nat.strongRecOn generalizing front with
  | ind n ih =>
    cases front with
    | nil => rfl
    | cons c front =>
      cases read : readToken (c :: front ++ (opening d ++ '(' :: behind)) with
      | some found =>
        obtain ⟨r, rest⟩ := found
        obtain ⟨isToken, dollar, eq⟩ := readToken_eq_some_iff.mp read
        obtain ⟨rest', hf, hr⟩ := token_in_front isToken (by simp) apart eq
        have shorter : rest'.length < n := by
          have length := congrArg List.length hf
          simp only [token, List.length_append, List.length_cons] at length hn
          omega
        have apart' : d = false → rest'.getLast? ≠ some '$' := by
          intro bare ends
          refine apart bare ?_
          rw [hf, List.getLast?_append, ends]
          rfl
        rw [hf, List.append_assoc, pieces_token isToken, pieces_token isToken,
          ih _ shorter apart' rfl]
        rfl
      | none =>
        have alone : readToken (c :: front) = none := by
          rw [Option.eq_none_iff_forall_ne_some]
          rintro ⟨r, rest⟩ found
          obtain ⟨isToken, dollar, eq⟩ := readToken_eq_some_iff.mp found
          rw [eq, List.append_assoc, readToken_token isToken] at read
          simp at read
        have apart' : d = false → front.getLast? ≠ some '$' := by
          intro bare ends
          refine apart bare ?_
          rw [List.getLast?_cons, ends]
          rfl
        rw [List.cons_append] at read ⊢
        rw [pieces_cons read, pieces_cons alone, ih front.length (by simp [← hn]) apart' rfl]
        rfl

/-- A text is read as the text before a token, the token and the text behind it. -/
theorem pieces_around {front behind : List Char} {d : Bool} (h : r.IsToken)
    (apart : d = false → front.getLast? ≠ some '$') :
    pieces (front ++ token d r ++ behind) =
      pieces front ++ .reference r :: pieces behind := by
  have split : front ++ token d r ++ behind =
      front ++ (opening d ++ '(' :: (r.inner ++ ')' :: behind)) := by simp [token]
  have split' : opening d ++ '(' :: (r.inner ++ ')' :: behind) = token d r ++ behind := by
    simp [token]
  rw [split, pieces_append apart, split', pieces_token h]

/-- A text in which no token stands is read as its characters. -/
theorem pieces_of_tokenless
    (h : ∀ front d r behind, r.IsToken → cs ≠ front ++ token d r ++ behind) :
    pieces cs = cs.map .char := by
  induction cs with
  | nil => rfl
  | cons c cs ih =>
    have none : readToken (c :: cs) = none := by
      rw [Option.eq_none_iff_forall_ne_some]
      rintro ⟨r, rest⟩ found
      obtain ⟨isToken, d, eq⟩ := readToken_eq_some_iff.mp found
      exact h [] d r rest isToken eq
    have rest : ∀ front d r behind, r.IsToken → cs ≠ front ++ token d r ++ behind := by
      rintro front d r behind isToken rfl
      exact h (c :: front) d r behind isToken rfl
    rw [pieces_cons none, ih rest]
    rfl

end SchemaLoom.Reference
