import SchemaLoom.Proofs.Json.Compact
import SchemaLoom.Proofs.Json.Escaping
import SchemaLoom.Proofs.Json.ReadBack
import SchemaLoom.Substitution

/-!
# Passes over compact text

A pass works on the compact text of a document without knowing its structure. It rewrites the
document when it leaves everything outside of strings as it is, and treats each string as a string
of its own: a value as a value, and a key, which is followed by a colon, as a key. Replacing the
text of a token is such a pass, and so is putting a document in the place of the strings that are
exactly one token.
-/

namespace SchemaLoom.Substitution

open Json Text

/-- What a pass over compact text must do to every part of it in order to rewrite the document. -/
structure Rewrites (pass : List Char → List Char) (value : String → Json) (key : String → String) :
    Prop where
  nil : pass [] = []
  cons : ∀ {c : Char} (rest : List Char), c ≠ '"' → c ≠ '\\' → c ≠ '$' →
    pass (c :: rest) = c :: pass rest
  string : ∀ (s : String) {rest : List Char}, Ends rest →
    pass (quoted s ++ rest) = compactChars (value s) ++ pass rest
  key : ∀ (s : String) (rest : List Char),
    pass (quoted s ++ ':' :: rest) = quoted (key s) ++ ':' :: pass rest

namespace Rewrites

variable {pass : List Char → List Char} {value : String → Json} {key : String → String}

theorem append (h : Rewrites pass value key) {cs : List Char}
    (free : ∀ c ∈ cs, c ≠ '"' ∧ c ≠ '\\' ∧ c ≠ '$') (rest : List Char) :
    pass (cs ++ rest) = cs ++ pass rest := by
  induction cs with
  | nil => rfl
  | cons c cs ih =>
    have first := free c List.mem_cons_self
    rw [List.cons_append, h.cons _ first.1 first.2.1 first.2.2,
      ih fun d member => free d (List.mem_cons_of_mem _ member), List.cons_append]

theorem integer_free (n : Int) : ∀ c ∈ Decimal.integer n, c ≠ '"' ∧ c ≠ '\\' ∧ c ≠ '$' := by
  have digit : ∀ c ∈ Decimal.digits n.natAbs, c ≠ '"' ∧ c ≠ '\\' ∧ c ≠ '$' := by
    intro c member
    have digit := isDigit_of_mem_digits _ c member
    refine ⟨?_, ?_, ?_⟩ <;> (rintro rfl; exact absurd digit (by decide))
  rw [Decimal.integer]
  split
  · simp only [List.mem_cons, forall_eq_or_imp]
    exact ⟨by decide, digit⟩
  · exact digit

mutual

theorem compactChars (h : Rewrites pass value key) : (v : Json) → v.Integral →
    ∀ {rest : List Char}, Ends rest →
      pass (Json.compactChars v ++ rest) =
        Json.compactChars (rewrite value key id v) ++ pass rest
  | .null, _, rest, _ => h.append (by simp [Json.compactChars]) rest
  | .bool true, _, rest, _ => h.append (by simp [Json.compactChars]) rest
  | .bool false, _, rest, _ => h.append (by simp [Json.compactChars]) rest
  | .number _, .number (n := n) _ _, rest, _ => h.append (integer_free n) rest
  | .string s, _, _, ends => by rw [rewrite]; exact h.string s ends
  | .array items, .array all, rest, _ => by
    have opened := h.cons (c := '[') (Json.compactItems items ++ ']' :: rest)
    simp only [rewrite, Json.compactChars, List.cons_append, List.append_assoc, List.nil_append]
    rw [opened (by decide) (by decide) (by decide), h.compactItems items all]
  | .object fields, .object all, rest, _ => by
    have opened := h.cons (c := '{') (Json.compactFields fields ++ '}' :: rest)
    simp only [rewrite, Json.compactChars, List.cons_append, List.append_assoc, List.nil_append,
      id]
    rw [opened (by decide) (by decide) (by decide), h.compactFields fields all]

theorem compactItems (h : Rewrites pass value key) : (items : List Json) →
    (∀ v ∈ items, v.Integral) → ∀ rest : List Char,
      pass (Json.compactItems items ++ ']' :: rest) =
        Json.compactItems (rewriteItems value key id items) ++ ']' :: pass rest
  | [], _, rest => h.cons rest (by decide) (by decide) (by decide)
  | v :: vs, all, rest => by
    have first := h.compactChars v (all v List.mem_cons_self) (ends_afterItem vs rest)
    rw [compactItems_cons, List.append_assoc, first, rewriteItems, compactItems_cons]
    cases vs with
    | nil =>
      simp [afterItem, rewriteItems, h.cons rest (c := ']') (by decide) (by decide) (by decide)]
    | cons w ws =>
      have others := h.compactItems (w :: ws)
        (fun u member => all u (List.mem_cons_of_mem _ member)) rest
      have comma := h.cons (c := ',') (Json.compactItems (w :: ws) ++ ']' :: rest) (by decide)
        (by decide) (by decide)
      simp only [afterItem, List.cons_append, comma, others, rewriteItems, List.append_assoc]

theorem compactFields (h : Rewrites pass value key) : (fields : List (String × Json)) →
    (∀ e ∈ fields, e.2.Integral) → ∀ rest : List Char,
      pass (Json.compactFields fields ++ '}' :: rest) =
        Json.compactFields (rewriteFields value key id fields) ++ '}' :: pass rest
  | [], _, rest => h.cons rest (by decide) (by decide) (by decide)
  | (k, v) :: more, all, rest => by
    have first := h.compactChars v (all (k, v) List.mem_cons_self) (ends_afterField more rest)
    rw [compactFields_cons, List.append_assoc, List.cons_append, List.append_assoc, h.key, first,
      rewriteFields, compactFields_cons]
    cases more with
    | nil =>
      simp [afterField, rewriteFields, h.cons rest (c := '}') (by decide) (by decide) (by decide)]
    | cons e more =>
      have others := h.compactFields (e :: more)
        (fun u member => all u (List.mem_cons_of_mem _ member)) rest
      have comma := h.cons (c := ',') (Json.compactFields (e :: more) ++ '}' :: rest) (by decide)
        (by decide) (by decide)
      simp only [afterField, List.cons_append, comma, others, rewriteFields, List.append_assoc]

end

theorem document (h : Rewrites pass value key) {v : Json} (integral : v.Integral) :
    pass (Json.compactChars v) = Json.compactChars (rewrite value key id v) := by
  simpa [h.nil] using h.compactChars v integral ends_nil

end Rewrites

/-! ## Replacing the text of a token -/

/-- A name that stands in a document's text as it is. -/
def IsPlainName (name : String) : Prop := ∀ c ∈ name.toList, IsPlain c

instance (name : String) : Decidable (IsPlainName name) :=
  decidable_of_iff (name.toList.all fun c => decide (IsPlain c)) (by simp [IsPlainName])

/-- A text with one token replaced. -/
def replaceText (name : String) (text : List Char) (s : String) : String :=
  String.ofList (replaceAll (needle name) text s.toList)

theorem quote_not_mem_needle {name : String} (plain : IsPlainName name) : '"' ∉ needle name := by
  simp only [needle, List.mem_cons, not_or]
  exact ⟨by decide, fun member => (plain _ member).1 rfl⟩

theorem replaceAll_quoted {name : String} (plain : IsPlainName name) (text : List Char)
    (s : String) (rest : List Char) :
    replaceAll (needle name) (escape text) (quoted s ++ rest) =
      quoted (replaceText name text s) ++ replaceAll (needle name) (escape text) rest := by
  have opened : replaceAll (needle name) (escape text) ('"' :: (escape s.toList ++ '"' :: rest)) =
      '"' :: replaceAll (needle name) (escape text) (escape s.toList ++ '"' :: rest) :=
    replaceAll_append_of_free _ _ (a := ['"']) _ (by decide)
  have closed := replaceAll_append_cons (escape text) (quote_not_mem_needle plain)
    (by simp [needle]) (escape s.toList) rest
  simp only [quoted, List.cons_append, List.append_assoc, List.nil_append, opened, closed,
    replaceText, String.toList_ofList]
  rw [needle, replaceAll_escape plain]

theorem rewrites_replaceAll {name : String} (plain : IsPlainName name) (text : List Char) :
    Rewrites (replaceAll (needle name) (escape text)) (fun s => .string (replaceText name text s))
      (replaceText name text) where
  nil := rfl
  cons rest _ _ dollar := by
    exact replaceAll_append_of_free _ _ (a := [_]) rest (by simpa using Ne.symm dollar)
  string s rest _ := by
    rw [replaceAll_quoted plain]
    rfl
  key s rest := by
    have colon : replaceAll (needle name) (escape text) (':' :: rest) =
        ':' :: replaceAll (needle name) (escape text) rest :=
      replaceAll_append_of_free _ _ (a := [':']) rest (by decide)
    rw [replaceAll_quoted plain, colon]

/-! ## Putting a document in the place of a token -/

section Typed

variable {quotedToken : List Char} (bare : List Char)

theorem replaceQuoted_skip {skip : Nat} (cs : List Char) :
    replaceQuoted quotedToken bare skip false cs =
      replaceQuoted quotedToken bare 0 false (cs.drop skip) := by
  induction cs generalizing skip with
  | nil => cases skip <;> simp [replaceQuoted]
  | cons c cs ih =>
    cases skip with
    | zero => rfl
    | succ skip => simpa [replaceQuoted] using ih

theorem replaceQuoted_cons {escaped : Bool} {c : Char} {cs : List Char}
    (h : escaped = true ∨ ¬ quotedToken <+: c :: cs) :
    replaceQuoted quotedToken bare 0 escaped (c :: cs) =
      c :: replaceQuoted quotedToken bare 0 (c == '\\' && !escaped) cs := by
  rw [replaceQuoted, if_neg]
  simp only [Bool.and_eq_true, Bool.not_eq_true', List.isPrefixOf_iff_prefix]
  rintro ⟨⟨found, unescaped⟩, -⟩
  rcases h with rfl | other
  · exact absurd unescaped (by decide)
  · exact other found

theorem not_prefix_of_ne_quote {token : List Char} {c : Char} {cs : List Char} (h : c ≠ '"') :
    ¬ '"' :: token <+: c :: cs :=
  fun found => h (List.cons_prefix_cons.1 found).1.symm

/-- Nothing in the middle of a string is taken for a token: a quote there is escaped. -/
theorem replaceQuoted_escape (token cs rest : List Char) :
    replaceQuoted ('"' :: token) bare 0 false (escape cs ++ rest) =
      escape cs ++ replaceQuoted ('"' :: token) bare 0 false rest := by
  induction cs with
  | nil => rfl
  | cons c cs ih =>
    by_cases plain : IsPlain c
    · have flag : (c == '\\' && !false) = false := by simpa using plain.2.1
      rw [escape_cons, escapeChar_of_isPlain plain, List.singleton_append, List.cons_append,
        replaceQuoted_cons bare (.inr (not_prefix_of_ne_quote plain.1)), flag, ih, List.cons_append]
    · obtain ⟨d, ds, eq, -, others⟩ := escapeChar_of_not_isPlain plain
      have behind : ∀ es : List Char, (∀ x ∈ es, x ≠ '"' ∧ x ≠ '\\') →
          replaceQuoted ('"' :: token) bare 0 false (es ++ (escape cs ++ rest)) =
            es ++ (escape cs ++ replaceQuoted ('"' :: token) bare 0 false rest) := by
        intro es free
        induction es with
        | nil => exact ih
        | cons e es ihe =>
          have first := free e List.mem_cons_self
          have flag : (e == '\\' && !false) = false := by simpa using first.2
          rw [List.cons_append,
            replaceQuoted_cons bare (.inr (not_prefix_of_ne_quote first.1)), flag,
            ihe fun x member => free x (List.mem_cons_of_mem _ member), List.cons_append]
      rw [escape_cons, eq, List.append_assoc, List.cons_append, List.cons_append,
        replaceQuoted_cons bare (.inr (not_prefix_of_ne_quote (by decide))),
        replaceQuoted_cons bare (.inl (by decide))]
      have flag : (d == '\\' && !('\\' == '\\' && !false)) = false := by simp
      rw [flag, behind ds fun x member => (others x member).2]
      simp

end Typed

theorem quotedNeedle_prefix_iff {name : String} (plain : IsPlainName name) (s : String)
    (rest : List Char) : quotedNeedle name <+: quoted s ++ rest ↔ s.toList = needle name := by
  have token : ∀ c ∈ needle name, IsPlain c := by
    simp only [needle, List.mem_cons, forall_eq_or_imp]
    exact ⟨by decide, plain⟩
  have opened : quoted s ++ rest = '"' :: (escape s.toList ++ '"' :: rest) := by simp [quoted]
  rw [opened, quotedNeedle, List.cons_append, List.cons_prefix_cons, prefix_escape_quote_iff token]
  exact and_iff_right rfl

/-- A string stays when what follows it shows a key or when it is not the token. -/
theorem replaceQuoted_keep {name : String} (plain : IsPlainName name) (bare : List Char)
    (s : String) {rest : List Char} (other : isKeyEnd rest = true ∨ s.toList ≠ needle name)
    (dollar : rest.head? ≠ some '$') :
    replaceQuoted (quotedNeedle name) bare 0 false (quoted s ++ rest) =
      quoted s ++ replaceQuoted (quotedNeedle name) bare 0 false rest := by
  have opened : quoted s ++ rest = '"' :: (escape s.toList ++ '"' :: rest) := by simp [quoted]
  have stays : ¬ ((quotedNeedle name).isPrefixOf (quoted s ++ rest) && !false &&
      !isKeyEnd ((quoted s ++ rest).drop (quotedNeedle name).length)) = true := by
    simp only [Bool.and_eq_true, Bool.not_eq_true', List.isPrefixOf_iff_prefix,
      quotedNeedle_prefix_iff plain]
    rintro ⟨⟨same, -⟩, value⟩
    have whole : quotedNeedle name = quoted s := by
      have plainText : escape s.toList = needle name := by
        rw [same]
        apply escape_of_isPlain
        simp only [needle, List.mem_cons, forall_eq_or_imp]
        exact ⟨by decide, plain⟩
      rw [quotedNeedle, quoted, plainText]
    rw [whole, List.drop_left] at value
    rcases other with key | different
    · simp [key] at value
    · exact different same
  have closing : ¬ quotedNeedle name <+: '"' :: rest := by
    rw [quotedNeedle, needle, List.cons_append, List.cons_prefix_cons]
    rintro ⟨-, t, rfl⟩
    exact dollar rfl
  have flag : ('"' == '\\' && !false) = false := by decide
  rw [opened] at stays ⊢
  rw [replaceQuoted, if_neg stays, flag]
  have middle := replaceQuoted_escape bare (needle name ++ ['"']) s.toList ('"' :: rest)
  rw [← List.cons_append] at middle
  rw [quotedNeedle, middle, ← quotedNeedle, replaceQuoted_cons bare (.inr closing), flag]
  simp [quoted]

/-- The value of a string when one token stands for a document. -/
def putDocument (name : String) (w : Json) (s : String) : Json :=
  if s.toList = needle name then w else .string s

theorem rewrites_replaceQuoted {name : String} (plain : IsPlainName name) (w : Json) :
    Rewrites (replaceQuoted (quotedNeedle name) (Json.compactChars w) 0 false) (putDocument name w)
      id where
  nil := rfl
  cons {c} rest quote backslash _ := by
    have flag : (c == '\\' && !false) = false := by simpa using backslash
    rw [quotedNeedle, List.cons_append,
      replaceQuoted_cons _ (.inr (not_prefix_of_ne_quote quote)), flag]
  string s rest ends := by
    have notKey : isKeyEnd rest = false := by
      obtain rfl | ⟨r, rfl | rfl | rfl⟩ := ends.cases <;> rfl
    have dollar : rest.head? ≠ some '$' := by
      obtain rfl | ⟨r, rfl | rfl | rfl⟩ := ends.cases <;> simp
    by_cases same : s.toList = needle name
    · have whole : quoted s = quotedNeedle name := by
        rw [quotedNeedle, quoted, same, escape_of_isPlain]
        simp only [needle, List.mem_cons, forall_eq_or_imp]
        exact ⟨by decide, plain⟩
      have found : ((quotedNeedle name).isPrefixOf (quotedNeedle name ++ rest) && !false &&
          !isKeyEnd ((quotedNeedle name ++ rest).drop (quotedNeedle name).length)) = true := by
        simp [notKey]
      have behind :
          (needle name ++ ['"'] ++ rest).drop ((quotedNeedle name).length - 1) = rest := by
        rw [quotedNeedle, List.cons_append, List.length_cons, Nat.add_sub_cancel, List.drop_left]
      have cons : quotedNeedle name ++ rest = '"' :: (needle name ++ ['"'] ++ rest) := rfl
      rw [whole, putDocument, if_pos same]
      rw [cons] at found ⊢
      rw [replaceQuoted, if_pos found, replaceQuoted_skip, behind]
    · rw [replaceQuoted_keep plain _ s (.inr same) dollar, putDocument, if_neg same]
      rfl
  key s rest := by
    have colon : replaceQuoted (quotedNeedle name) (Json.compactChars w) 0 false (':' :: rest) =
        ':' :: replaceQuoted (quotedNeedle name) (Json.compactChars w) 0 false rest := by
      rw [quotedNeedle, List.cons_append,
        replaceQuoted_cons _ (.inr (not_prefix_of_ne_quote (by decide)))]
      rfl
    rw [replaceQuoted_keep plain _ s (.inl rfl) (by simp), colon]
    rfl

/-! ## Tables of texts -/

theorem applyTyped_of_texts {table : Substitution} (texts : ∀ e ∈ table, e.2.isString = true)
    (cs : List Char) : table.applyTyped cs = cs := by
  unfold applyTyped
  induction table with
  | nil => rfl
  | cons e table ih =>
    rw [List.foldl_cons, if_pos (texts e List.mem_cons_self)]
    exact ih fun e member => texts e (List.mem_cons_of_mem _ member)

theorem applyJson_of_texts {table : Substitution} (texts : ∀ e ∈ table, e.2.isString = true)
    (nonempty : table.isEmpty = false) (v : Json) :
    table.applyJson v = parseChars (table.applyWith escape (Json.compactChars v)) := by
  rw [applyJson, nonempty, applyTyped_of_texts texts]
  rfl

end SchemaLoom.Substitution
