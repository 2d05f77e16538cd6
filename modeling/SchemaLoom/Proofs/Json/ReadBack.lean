import SchemaLoom.Json.Reader
import SchemaLoom.Proofs.Json.Compact

/-!
# Compact text reads back

A text that is escaped between quotes is read as itself, and an integer of 64 bits is read from its
digits. So a document without floating point numbers is read from its compact text, except that
repeated keys are gathered; it is refused exactly when more than 127 containers stand inside each
other.
-/

namespace SchemaLoom.Json

open Decimal

/-! ## Digits -/

theorem digitValue_digitChar {n : Nat} (h : n < 10) : digitValue (digitChar n) = n := by
  revert n; decide

theorem isDigit_digitChar {n : Nat} (h : n < 10) : isDigit (digitChar n) = true := by
  revert n; decide

theorem hexDigit?_digitChar {n : Nat} (h : n < 16) : hexDigit? (digitChar n) = some n := by
  revert n; decide

theorem digits_of_lt {n : Nat} (h : n < 10) : digits n = [digitChar n] := by
  rw [digits, if_pos h]

theorem digits_of_le {n : Nat} (h : 10 ≤ n) :
    digits n = digits (n / 10) ++ [digitChar (n % 10)] := by
  rw [digits, if_neg (by omega)]

theorem digits_ne_nil (n : Nat) : digits n ≠ [] := by
  rw [digits]
  split <;> simp

theorem isDigit_of_mem_digits (n : Nat) : ∀ c ∈ digits n, isDigit c = true := by
  induction n using digits.induct with
  | case1 n small => simpa [digits_of_lt small] using isDigit_digitChar small
  | case2 n large ih =>
    intro c member
    rw [digits_of_le (by omega), List.mem_append, List.mem_singleton] at member
    rcases member with member | rfl
    · exact ih c member
    · exact isDigit_digitChar (by omega)

/-- Only the digits of zero begin with a zero. -/
theorem digits_head (n : Nat) : ∃ d ds, digits n = d :: ds ∧ (d = '0' → ds = []) := by
  induction n using digits.induct with
  | case1 n small => exact ⟨_, _, digits_of_lt small, fun _ => rfl⟩
  | case2 n large ih =>
    obtain ⟨d, ds, eq, alone⟩ := ih
    refine ⟨d, ds ++ [digitChar (n % 10)], by simp [digits_of_le (by omega : 10 ≤ n), eq], ?_⟩
    intro zero
    exfalso
    obtain rfl := zero
    obtain rfl := alone rfl
    -- A lone zero in front would be the digits of a number below ten that is not zero.
    have single : n / 10 < 10 := by
      by_contra big
      rw [digits_of_le (by omega)] at eq
      have length := congrArg List.length eq
      simp only [List.length_append, List.length_cons, List.length_nil] at length
      have := List.length_pos_iff.2 (digits_ne_nil (n / 10 / 10))
      omega
    rw [digits_of_lt single, List.cons.injEq] at eq
    have value := digitValue_digitChar single
    rw [eq.1] at value
    simp [digitValue] at value
    omega

theorem foldl_addInteger {n : Nat} (h : n ≤ maxUnsigned) :
    (digits n).foldl Mantissa.addInteger ⟨0, 0, false⟩ = ⟨n, 0, false⟩ := by
  induction n using digits.induct with
  | case1 n small =>
    have fits : ¬ n > maxUnsigned := by omega
    simp [digits_of_lt small, Mantissa.addInteger, digitValue_digitChar small, fits]
  | case2 n large ih =>
    have value : n / 10 * 10 + n % 10 = n := by omega
    have fits : ¬ n > maxUnsigned := by omega
    simp [digits_of_le (by omega : 10 ≤ n), ih (by omega), Mantissa.addInteger,
      digitValue_digitChar (by omega : n % 10 < 10), value, fits]

/-! ## Integers -/

theorem Ends.takeWhile_digits {rest : List Char} (h : Ends rest) {ds : List Char}
    (digits : ∀ c ∈ ds, isDigit c = true) :
    (ds ++ rest).takeWhile isDigit = ds ∧ (ds ++ rest).dropWhile isDigit = rest := by
  rw [List.takeWhile_append_of_pos digits, List.dropWhile_append_of_pos digits]
  cases rest with
  | nil => simp
  | cons c rest =>
    have other : isDigit c = false := by
      rcases h c rfl with rfl | rfl | rfl <;> rfl
    simp [other]

theorem readUnsigned_digits (negative : Bool) {n : Nat} {rest : List Char} (h : Ends rest)
    (bound : n ≤ if negative then maxNegative else maxUnsigned) (sign : negative = true → n ≠ 0) :
    readUnsigned negative (digits n ++ rest) =
      some (.int (if negative then -(n : Int) else n), rest) := by
  obtain ⟨d, ds, eq, alone⟩ := digits_head n
  obtain ⟨whole, behind⟩ := h.takeWhile_digits (isDigit_of_mem_digits n)
  have fits : n ≤ maxUnsigned := by
    cases negative
    · simpa using bound
    · simp only [if_true, maxNegative] at bound
      simp only [maxUnsigned, UInt64.size]
      omega
  have leading : ((digits n).isEmpty ||
      (decide ((digits n).head? = some '0') && decide ((digits n).length > 1))) = false := by
    by_cases zero : d = '0'
    · simp [eq, alone zero]
    · simp [eq, zero]
  simp only [readUnsigned, whole, behind, foldl_addInteger fits, leading, Bool.false_eq_true,
    if_false]
  obtain rfl | ⟨r, rfl | rfl | rfl⟩ := h.cases <;> cases negative <;> simp_all

/-- Whether a number begins with the character. -/
def StartsNumber (c : Char) : Prop := c = '-' ∨ isDigit c = true

theorem integer_head (n : Int) : ∃ c cs, integer n = c :: cs ∧ StartsNumber c := by
  rw [integer]
  split
  · exact ⟨_, _, rfl, .inl rfl⟩
  · obtain ⟨d, ds, eq, -⟩ := digits_head n.natAbs
    exact ⟨d, ds, eq, .inr (isDigit_of_mem_digits n.natAbs d (by simp [eq]))⟩

theorem readNumber_integer {n : Int} (low : -9223372036854775808 ≤ n)
    (high : n < 18446744073709551616) {rest : List Char} (h : Ends rest) :
    readNumber (integer n ++ rest) = some (.int n, rest) := by
  rw [integer]
  split
  · rename_i negative
    have read := readUnsigned_digits true (n := n.natAbs) h
      (by simp only [if_true, maxNegative]; omega) (by omega)
    have value : -(n.natAbs : Int) = n := by omega
    rw [if_pos rfl, value] at read
    simpa [readNumber] using read
  · have read := readUnsigned_digits false (n := n.natAbs) h
      (by simp only [Bool.false_eq_true, if_false, maxUnsigned, UInt64.size]; omega) (by simp)
    have value : (n.natAbs : Int) = n := by omega
    obtain ⟨d, ds, eq, -⟩ := digits_head n.natAbs
    have plus : d ≠ '-' := by
      rintro rfl
      exact absurd (isDigit_of_mem_digits n.natAbs '-' (by simp [eq])) (by decide)
    rw [eq] at read ⊢
    have skip : readNumber (d :: ds ++ rest) = readUnsigned false (d :: ds ++ rest) := by
      rw [List.cons_append, readNumber]
      intro r same
      exact plus (List.cons.inj same).1
    rw [skip, read]
    simp [value]

/-! ## Strings -/

/-- An escape by code, whatever follows it. -/
theorem readString_code {a b c d : Char} {n : Nat} (code : hexCode? a b c d = some n)
    (high : isHighSurrogate n = false) (low : isLowSurrogate n = false) (rest : List Char) :
    readString ('\\' :: 'u' :: a :: b :: c :: d :: rest) =
      addChar (Char.ofNat n) (readString rest) := by
  rw [readString.eq_def]
  split
  · simp_all
  · simp_all
  · rename_i same
    cases same
    simp [code, high, low]
  · rename_i same
    cases same
    simp [code, high, low]
  · rename_i short same
    cases same
    exact absurd rfl (short a b c d rest rfl)
  · rename_i short same
    cases same
    exact absurd rfl (short 'u' _ rfl)

theorem readString_control {c : Char} (control : c.toNat < 0x20) (rest : List Char) :
    readString ('\\' :: 'u' :: '0' :: '0' :: digitChar (c.toNat / 16) :: digitChar (c.toNat % 16) ::
      rest) = addChar c (readString rest) := by
  have code : hexCode? '0' '0' (digitChar (c.toNat / 16)) (digitChar (c.toNat % 16)) =
      some c.toNat := by
    have zero : hexDigit? '0' = some 0 := by decide
    have value : c.toNat / 16 * 16 + c.toNat % 16 = c.toNat := by omega
    simp [hexCode?, zero, hexDigit?_digitChar (by omega : c.toNat / 16 < 16),
      hexDigit?_digitChar (by omega : c.toNat % 16 < 16), value]
  have high : isHighSurrogate c.toNat = false := by simp [isHighSurrogate]; omega
  have low : isLowSurrogate c.toNat = false := by simp [isLowSurrogate]; omega
  simpa using readString_code code high low rest

theorem readString_escapeChar (c : Char) (rest : List Char) :
    readString (escapeChar c ++ rest) = addChar c (readString rest) := by
  unfold escapeChar
  split_ifs with quote backslash newLine return_ tab back feed control
  · simp [readString, simpleEscape?, quote]
  · simp [readString, simpleEscape?, backslash]
  · simp [readString, simpleEscape?, newLine]
  · simp [readString, simpleEscape?, return_]
  · simp [readString, simpleEscape?, tab]
  · simp [readString, simpleEscape?, back]
  · simp [readString, simpleEscape?, feed]
  · simpa using readString_control control rest
  · simp [readString, backslash, control]

theorem readString_escape (cs rest : List Char) :
    readString (escape cs ++ '"' :: rest) = some (cs, rest) := by
  induction cs with
  | nil => simp [escape, readString]
  | cons c cs ih =>
    rw [escape, List.flatMap_cons, List.append_assoc, readString_escapeChar]
    rw [escape] at ih
    simp [ih, addChar]

/-! ## Values -/

/-- Whether a value begins with the character. -/
def StartsValue (c : Char) : Prop :=
  c = 'n' ∨ c = 't' ∨ c = 'f' ∨ c = '"' ∨ c = '[' ∨ c = '{' ∨ StartsNumber c

theorem StartsValue.not_isSpace {c : Char} (h : StartsValue c) : isSpace c = false := by
  rcases h with rfl | rfl | rfl | rfl | rfl | rfl | rfl | digit
  all_goals try rfl
  rw [Bool.eq_false_iff]
  intro space
  simp only [isSpace, Bool.or_eq_true, beq_iff_eq] at space
  rcases space with ((rfl | rfl) | rfl) | rfl <;> exact absurd digit (by decide)

theorem StartsValue.ne_close {c : Char} (h : StartsValue c) : c ≠ ']' := by
  rintro rfl
  revert h
  simp [StartsValue, StartsNumber, isDigit]

theorem compactChars_head : {v : Json} → v.Integral →
    ∃ c cs, compactChars v = c :: cs ∧ StartsValue c
  | .null, _ => ⟨_, _, rfl, by simp [StartsValue]⟩
  | .bool true, _ => ⟨_, _, rfl, by simp [StartsValue]⟩
  | .bool false, _ => ⟨_, _, rfl, by simp [StartsValue]⟩
  | .number _, .number (n := n) _ _ => by
    obtain ⟨c, cs, eq, starts⟩ := integer_head n
    exact ⟨c, cs, by simpa [compactChars, Number.text] using eq, by simp [StartsValue, starts]⟩
  | .string s, _ => ⟨'"', escape s.toList ++ ['"'], rfl, by simp [StartsValue]⟩
  | .array items, _ => ⟨'[', compactItems items ++ [']'], rfl, by simp [StartsValue]⟩
  | .object fields, _ => ⟨'{', compactFields fields ++ ['}'], rfl, by simp [StartsValue]⟩

theorem skipSpace_of_head {c : Char} {cs : List Char} (h : isSpace c = false) :
    skipSpace (c :: cs) = c :: cs := by
  simp [skipSpace, h]

theorem Ends.skipSpace {rest : List Char} (h : Ends rest) : Json.skipSpace rest = rest := by
  obtain rfl | ⟨r, rfl | rfl | rfl⟩ := h.cases <;> simp [Json.skipSpace, isSpace]

theorem readValue_number {c : Char} (h : StartsNumber c) (bound depth : Nat) (cs : List Char) :
    readValue bound depth (c :: cs) =
      (readNumber (c :: cs)).map fun (n, rest) => (.number n, rest) := by
  have blank : isSpace c = false := StartsValue.not_isSpace (by simp [StartsValue, h])
  have other : ∀ d : Char, ¬ StartsNumber d → c ≠ d := fun d no same => no (same ▸ h)
  have n : c ≠ 'n' := other _ (by simp [StartsNumber, isDigit])
  have t : c ≠ 't' := other _ (by simp [StartsNumber, isDigit])
  have f : c ≠ 'f' := other _ (by simp [StartsNumber, isDigit])
  have quote : c ≠ '"' := other _ (by simp [StartsNumber, isDigit])
  have bracket : c ≠ '[' := other _ (by simp [StartsNumber, isDigit])
  have brace : c ≠ '{' := other _ (by simp [StartsNumber, isDigit])
  rw [readValue.eq_def]
  simp only [skipSpace_of_head blank]
  split <;> simp_all
  cases readNumber (c :: cs) <;> rfl

theorem readValue_string (bound depth : Nat) (s : String) (rest : List Char) :
    readValue bound depth (quoted s ++ rest) = some (.string s, rest) := by
  rw [quoted, List.cons_append, readValue.eq_def]
  simp [skipSpace, isSpace, readString_escape]

theorem readValue_array {bound depth : Nat} {c : Char} {cs : List Char} (h : StartsValue c) :
    readValue bound (depth + 1) ('[' :: c :: cs) =
      (readItems (readValue bound depth) bound (c :: cs)).map
        fun (items, rest) => (.array items, rest) := by
  rw [readValue.eq_def]
  simp only [skipSpace_of_head (show isSpace '[' = false from rfl),
    skipSpace_of_head h.not_isSpace]
  split
  · rename_i same
    exact absurd (List.cons.inj same).1 h.ne_close
  · cases readItems (readValue bound depth) bound (c :: cs) <;> rfl

theorem readValue_object {bound depth : Nat} (cs : List Char) :
    readValue bound (depth + 1) ('{' :: '"' :: cs) =
      (readFields (readValue bound depth) bound ('"' :: cs)).map
        fun (fields, rest) => (.object (Ordered.ofList fields), rest) := by
  rw [readValue.eq_def]
  simp only [skipSpace_of_head (show isSpace '{' = false from rfl),
    skipSpace_of_head (show isSpace '"' = false from rfl)]
  cases readFields (readValue bound depth) bound ('"' :: cs) <;> rfl

mutual

theorem readValue_compactChars (bound : Nat) : (v : Json) → v.Integral →
    (compactChars v).length ≤ bound → ∀ (depth : Nat) {rest : List Char}, Ends rest →
      readValue bound depth (compactChars v ++ rest) =
        if v.nesting ≤ depth then some (v.merged, rest) else none
  | .null, _, _, _, _, _ | .bool true, _, _, _, _, _ | .bool false, _, _, _, _, _ => by
    rw [readValue.eq_def]
    simp [compactChars, skipSpace, isSpace, nesting, rewrite]
  | .number _, .number (n := n) low high, _, depth, rest, ends => by
    obtain ⟨c, cs, eq, starts⟩ := integer_head n
    have read := readNumber_integer low high ends
    rw [eq] at read
    simp only [compactChars, Number.text, eq, nesting, rewrite]
    rw [List.cons_append, readValue_number starts, ← List.cons_append, read]
    simp
  | .string s, _, _, depth, rest, _ => by
    rw [compactChars, readValue_string]
    simp [nesting, rewrite]
  | .array [], _, _, depth, rest, _ => by
    rw [readValue.eq_def]
    cases depth <;>
      simp [compactChars, compactItems, skipSpace, isSpace, nesting, itemsNesting, rewrite,
        rewriteItems]
  | .array (v :: vs), .array all, size, depth, rest, _ => by
    obtain ⟨c, cs, eq, starts⟩ := compactChars_head (all v List.mem_cons_self)
    have opened : compactChars (.array (v :: vs)) ++ rest =
        '[' :: (compactItems (v :: vs) ++ ']' :: rest) := by simp [compactChars]
    have first : compactItems (v :: vs) = c :: (cs ++ afterItem vs) := by
      rw [compactItems_cons, eq, List.cons_append]
    cases depth with
    | zero =>
      rw [opened, readValue.eq_def]
      simp [skipSpace, isSpace, nesting]
    | succ depth =>
      have length : (compactItems (v :: vs)).length ≤ bound := by
        simp only [compactChars, List.length_cons, List.length_append] at size
        omega
      have items := readItems_compactItems bound (v :: vs) (by simp) all length depth rest length
      rw [first, List.cons_append] at items
      rw [opened, first, List.cons_append, readValue_array starts, items]
      by_cases fits : itemsNesting (v :: vs) ≤ depth <;> simp [nesting, fits, rewrite]
  | .object [], _, _, depth, rest, _ => by
    rw [readValue.eq_def]
    cases depth <;>
      simp [compactChars, compactFields, skipSpace, isSpace, nesting, fieldsNesting, rewrite,
        rewriteFields, Ordered.ofList, Ordered.putAll]
  | .object ((k, v) :: more), .object all, size, depth, rest, _ => by
    have opened : compactChars (.object ((k, v) :: more)) ++ rest =
        '{' :: (compactFields ((k, v) :: more) ++ '}' :: rest) := by simp [compactChars]
    have first : compactFields ((k, v) :: more) =
        '"' :: (escape k.toList ++ '"' :: ':' :: (compactChars v ++ afterField more)) := by
      simp [compactFields_cons, quoted]
    cases depth with
    | zero =>
      rw [opened, readValue.eq_def]
      simp [skipSpace, isSpace, nesting]
    | succ depth =>
      have length : (compactFields ((k, v) :: more)).length ≤ bound := by
        simp only [compactChars, List.length_cons, List.length_append] at size
        omega
      have fields := readFields_compactFields bound ((k, v) :: more) (by simp) all length depth
        rest length
      rw [first, List.cons_append] at fields
      rw [opened, first, List.cons_append, readValue_object, fields]
      by_cases fits : fieldsNesting ((k, v) :: more) ≤ depth <;> simp [nesting, fits, rewrite]

/-- The count of entries runs along with the bound on the length. -/
theorem readItems_compactItems (bound : Nat) : (items : List Json) → items ≠ [] →
    (∀ v ∈ items, v.Integral) → (compactItems items).length ≤ bound →
      ∀ (depth : Nat) (rest : List Char) {count : Nat}, (compactItems items).length ≤ count →
        readItems (readValue bound depth) count (compactItems items ++ ']' :: rest) =
          if itemsNesting items ≤ depth then
            some (rewriteItems .string id Ordered.ofList items, rest)
          else none
  | [], nonempty, _, _, _, _, _, _ => absurd rfl nonempty
  | v :: vs, _, all, size, depth, rest, count, counted => by
    obtain ⟨c, cs, eq, -⟩ := compactChars_head (all v List.mem_cons_self)
    have length : (compactItems (v :: vs)).length =
        (compactChars v).length + (afterItem vs).length := by
      rw [compactItems_cons, List.length_append]
    have one : 1 ≤ (compactChars v).length := by simp [eq]
    obtain ⟨count, rfl⟩ : ∃ n, count = n + 1 := ⟨count - 1, by omega⟩
    have first := readValue_compactChars bound v (all v List.mem_cons_self) (by omega) depth
      (ends_afterItem vs rest)
    rw [compactItems_cons, List.append_assoc, readItems, first]
    by_cases fits : v.nesting ≤ depth
    · simp only [if_pos fits, (ends_afterItem vs rest).skipSpace]
      cases vs with
      | nil => simp [afterItem, itemsNesting, fits, rewriteItems]
      | cons w ws =>
        simp only [afterItem, List.length_cons] at length
        have others := readItems_compactItems bound (w :: ws) (by simp)
          (fun u member => all u (List.mem_cons_of_mem _ member)) (by omega) depth rest
          (by omega : (compactItems (w :: ws)).length ≤ count)
        have nested : itemsNesting (v :: w :: ws) ≤ depth ↔ itemsNesting (w :: ws) ≤ depth := by
          rw [itemsNesting, Nat.max_le]
          exact and_iff_right fits
        simp only [afterItem, List.cons_append, others, nested]
        by_cases deeper : itemsNesting (w :: ws) ≤ depth
        · simp only [if_pos deeper]
          rfl
        · simp only [if_neg deeper]
    · have deep : ¬ itemsNesting (v :: vs) ≤ depth := by
        rw [itemsNesting]
        omega
      simp [fits, deep]

theorem readFields_compactFields (bound : Nat) : (fields : List (String × Json)) → fields ≠ [] →
    (∀ e ∈ fields, e.2.Integral) → (compactFields fields).length ≤ bound →
      ∀ (depth : Nat) (rest : List Char) {count : Nat}, (compactFields fields).length ≤ count →
        readFields (readValue bound depth) count (compactFields fields ++ '}' :: rest) =
          if fieldsNesting fields ≤ depth then
            some (rewriteFields .string id Ordered.ofList fields, rest)
          else none
  | [], nonempty, _, _, _, _, _, _ => absurd rfl nonempty
  | (k, v) :: more, _, all, size, depth, rest, count, counted => by
    have length : (compactFields ((k, v) :: more)).length =
        (quoted k).length + (compactChars v).length + (afterField more).length + 1 := by
      simp only [compactFields_cons, List.length_append, List.length_cons]
      omega
    obtain ⟨count, rfl⟩ : ∃ n, count = n + 1 := ⟨count - 1, by omega⟩
    have first := readValue_compactChars bound v (all (k, v) List.mem_cons_self) (by omega) depth
      (ends_afterField more rest)
    have text : compactFields ((k, v) :: more) ++ '}' :: rest = '"' :: (escape k.toList ++
        '"' :: ':' :: (compactChars v ++ (afterField more ++ '}' :: rest))) := by
      simp [compactFields_cons, quoted]
    rw [text, readFields, skipSpace_of_head (show isSpace '"' = false from rfl)]
    simp only [readString_escape, skipSpace_of_head (show isSpace ':' = false from rfl), first,
      String.ofList_toList]
    by_cases fits : v.nesting ≤ depth
    · simp only [if_pos fits, (ends_afterField more rest).skipSpace]
      cases more with
      | nil => simp [afterField, fieldsNesting, fits, rewriteFields]
      | cons e more =>
        simp only [afterField, List.length_cons] at length
        have others := readFields_compactFields bound (e :: more) (by simp)
          (fun u member => all u (List.mem_cons_of_mem _ member)) (by omega) depth rest
          (by omega : (compactFields (e :: more)).length ≤ count)
        have nested : fieldsNesting ((k, v) :: e :: more) ≤ depth ↔
            fieldsNesting (e :: more) ≤ depth := by
          rw [fieldsNesting, Nat.max_le]
          exact and_iff_right fits
        simp only [afterField, List.cons_append, others, nested]
        by_cases deeper : fieldsNesting (e :: more) ≤ depth
        · simp only [if_pos deeper]
          rfl
        · simp only [if_neg deeper]
    · have deep : ¬ fieldsNesting ((k, v) :: more) ≤ depth := by
        rw [fieldsNesting]
        omega
      simp [fits, deep]

end

/-- The compact text of a document is the document with repeated keys gathered, unless its
containers stand too deep inside each other. -/
theorem parseChars_compactChars {v : Json} (integral : v.Integral) :
    parseChars (compactChars v) = if v.nesting ≤ maxDepth then some v.merged else none := by
  have read := readValue_compactChars _ v integral (Nat.le_refl _) maxDepth ends_nil
  rw [List.append_nil] at read
  rw [parseChars, read]
  by_cases fits : v.nesting ≤ maxDepth <;> simp [fits, skipSpace]

end SchemaLoom.Json
