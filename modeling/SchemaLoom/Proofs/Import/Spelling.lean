import Mathlib.Data.List.Forall2
import Mathlib.Data.List.Infix
import SchemaLoom.Proofs.Substitution.Passes
import SchemaLoom.Session.Imports

/-!
# The spellings of a file's tokens

The name of a file and the reference to it can be written with one dollar sign or with two. The
longer spellings are replaced first, so both lead to the same text, unless a dollar sign before them
is read together with what they leave. Behind text that has no part in any token each token is
replaced on its own.
-/

namespace SchemaLoom.Import

open Json Substitution Text

variable {name reference : String}

/-! ## The table of a file -/

theorem fileTable_eq (name reference : String) : fileTable name reference =
    [("$fileRef", .string reference), ("$fileName", .string name), ("fileRef", .string reference),
      ("fileName", .string name)] := by
  simp [fileTable, ofTexts, Substitution.insert, Ordered.put]

theorem ordered_fileTable (name reference : String) : (fileTable name reference).ordered =
    [("$fileName", .string name), ("$fileRef", .string reference), ("fileName", .string name),
      ("fileRef", .string reference)] := by
  have sizes : "$fileName".utf8ByteSize = 9 ∧ "$fileRef".utf8ByteSize = 8 ∧
      "fileName".utf8ByteSize = 8 ∧ "fileRef".utf8ByteSize = 7 := by decide +kernel
  rw [fileTable_eq, ordered]
  simp [List.mergeSort, List.MergeSort.Internal.splitInTwo, noLater, sizes]

/-- A text with the tokens of a file replaced. -/
def fileText (name reference cs : List Char) : List Char :=
  replaceAll (needle "fileRef") reference <| replaceAll (needle "fileName") name <|
    replaceAll (needle "$fileRef") reference <| replaceAll (needle "$fileName") name cs

theorem applyJson_fileTable (v : Json) : (fileTable name reference).applyJson v =
    parseChars (fileText (escape name.toList) (escape reference.toList) (compactChars v)) := by
  have texts : ∀ e ∈ fileTable name reference, e.2.isString = true := by
    simp [fileTable_eq, Json.isString]
  rw [applyJson_of_texts texts (by rw [fileTable_eq]; rfl), applyWith, ordered_fileTable]
  rfl

/-! ## Replacing piece by piece -/

section Pieces

variable {n r : List Char}

theorem replaceAll_append_of_apart {needle replacement x : List Char}
    (apart : ∀ y ∈ x.tails, y ≠ [] → ¬ y <+: needle ∧ ¬ needle <+: y) (cs : List Char) :
    replaceAll needle replacement (x ++ cs) = x ++ replaceAll needle replacement cs := by
  induction x with
  | nil => rfl
  | cons c x ih =>
    have here := apart (c :: x) (by simp) (by simp)
    have other : ¬ needle <+: c :: (x ++ cs) := fun found =>
      (List.prefix_or_prefix_of_prefix found (List.prefix_append (c :: x) cs)).elim here.2 here.1
    rw [List.cons_append, replaceAll_cons replacement other,
      ih fun y member => apart y (by simp [member]), List.cons_append]

/-- The tokens of a file in the order in which they are replaced. -/
def replacedTokens : List String := ["$fileName", "$fileRef", "fileName", "fileRef"]

/-- Text of which no end has a token at its front or can become the front of one. -/
def Apart (x : List Char) : Prop :=
  ∀ y ∈ x.tails, y ≠ [] → ∀ token ∈ replacedTokens, ¬ y <+: needle token ∧ ¬ needle token <+: y

theorem apart_of_free {x : List Char} (free : '$' ∉ x) : Apart x := by
  intro y member nonempty token _
  rw [List.mem_tails] at member
  obtain ⟨c, y, rfl⟩ := List.exists_cons_of_ne_nil nonempty
  have dollar : c ≠ '$' := by
    rintro rfl
    exact free (member.subset List.mem_cons_self)
  simp [needle, List.cons_prefix_cons, dollar, dollar.symm]

theorem fileText_apart {x : List Char} (apart : Apart x) (cs : List Char) :
    fileText n r (x ++ cs) = x ++ fileText n r cs := by
  have stays : ∀ token ∈ replacedTokens, ∀ replacement cs,
      replaceAll (needle token) replacement (x ++ cs) =
        x ++ replaceAll (needle token) replacement cs :=
    fun token listed replacement =>
      replaceAll_append_of_apart fun y member nonempty => apart y member nonempty token listed
  rw [fileText, stays "$fileName" (by decide), stays "$fileRef" (by decide),
    stays "fileName" (by decide), stays "fileRef" (by decide), fileText]

/-- The names of the tokens of a file. -/
def fileTokens : List String := ["fileName", "fileRef"]

/-- The two spellings of a token. -/
def fileSpellings (token : String) : List (List Char) := [needle token, '$' :: needle token]

theorem longer_name : '$' :: needle "fileName" = needle "$fileName" := by decide +kernel

theorem longer_reference : '$' :: needle "fileRef" = needle "$fileRef" := by decide +kernel

theorem replaceAll_needle_match (token : String) (replacement cs : List Char) :
    replaceAll (needle token) replacement (needle token ++ cs) =
      replacement ++ replaceAll (needle token) replacement cs :=
  replaceAll_match replacement (List.cons_ne_nil _ _) cs

theorem replaceAll_needle_free {token : String} {replacement x : List Char} (free : '$' ∉ x)
    (cs : List Char) : replaceAll (needle token) replacement (x ++ cs) =
      x ++ replaceAll (needle token) replacement cs :=
  replaceAll_append_of_free replacement token.toList cs free

/-- Both spellings of the name give way to the name. The shorter one is no part of a longer one that
is replaced before. -/
theorem fileText_name {x : List Char} (spelt : x ∈ fileSpellings "fileName") (free : '$' ∉ n)
    (cs : List Char) : fileText n r (x ++ cs) = n ++ fileText n r cs := by
  simp only [fileSpellings, List.mem_cons, List.not_mem_nil, or_false] at spelt
  rcases spelt with rfl | rfl
  · rw [fileText, replaceAll_append_of_apart (by decide +kernel),
      replaceAll_append_of_apart (by decide +kernel), replaceAll_needle_match,
      replaceAll_needle_free free, fileText]
  · rw [longer_name, fileText, replaceAll_needle_match, replaceAll_needle_free free,
      replaceAll_needle_free free, replaceAll_needle_free free, fileText]

theorem fileText_reference {x : List Char} (spelt : x ∈ fileSpellings "fileRef") (free : '$' ∉ r)
    (cs : List Char) : fileText n r (x ++ cs) = r ++ fileText n r cs := by
  simp only [fileSpellings, List.mem_cons, List.not_mem_nil, or_false] at spelt
  rcases spelt with rfl | rfl
  · rw [fileText, replaceAll_append_of_apart (by decide +kernel),
      replaceAll_append_of_apart (by decide +kernel),
      replaceAll_append_of_apart (by decide +kernel), replaceAll_needle_match, fileText]
  · rw [longer_reference, fileText, replaceAll_append_of_apart (by decide +kernel),
      replaceAll_needle_match, replaceAll_needle_free free, replaceAll_needle_free free, fileText]

/-- Two texts with the same tokens of a file, each in one of its spellings. Before a token that they
spell differently stands text apart from the tokens, such as text without dollar signs, or another
token; behind the last one anything may stand. -/
inductive Respelt : List Char → List Char → Prop
  | rest (cs : List Char) : Respelt cs cs
  | apart {x a b : List Char} : Apart x → Respelt a b → Respelt (x ++ a) (x ++ b)
  | token {token : String} {x y a b : List Char} : token ∈ fileTokens → x ∈ fileSpellings token →
      y ∈ fileSpellings token → Respelt a b → Respelt (x ++ a) (y ++ b)

/-- A token that no other dollar sign precedes can be spelled either way. -/
theorem Respelt.of_free {token : String} {before x y : List Char} (free : '$' ∉ before)
    (which : token ∈ fileTokens) (spelt : x ∈ fileSpellings token)
    (spelt' : y ∈ fileSpellings token) (after : List Char) :
    Respelt (before ++ (x ++ after)) (before ++ (y ++ after)) :=
  .apart (apart_of_free free) (.token which spelt spelt' (.rest after))

/-- Texts that spell the tokens differently say the same about a file. -/
theorem Respelt.fileText_eq {a b : List Char} (h : Respelt a b) (name : '$' ∉ n)
    (reference : '$' ∉ r) : fileText n r a = fileText n r b := by
  induction h with
  | rest cs => rfl
  | apart apart _ ih => rw [fileText_apart apart, fileText_apart apart, ih]
  | token which spelt spelt' _ ih =>
    simp only [fileTokens, List.mem_cons, List.not_mem_nil, or_false] at which
    rcases which with rfl | rfl
    · rw [fileText_name spelt name, fileText_name spelt' name, ih]
    · rw [fileText_reference spelt reference, fileText_reference spelt' reference, ih]

-- A name can complete a token that begins before it, and only the longer spelling is replaced early
-- enough for that.
example : (fileText ['a', 'm', 'e'] ['r'] "$fileN$$fileName".toList,
    fileText ['a', 'm', 'e'] ['r'] "$fileN$fileName".toList) =
    (['a', 'm', 'e'], "$fileName".toList) := by decide +kernel

/-! ## Replacing in a document -/

theorem fileText_append_cons {c : Char} (delimiter : ∀ token ∈ replacedTokens, c ∉ needle token)
    (a b : List Char) : fileText n r (a ++ c :: b) = fileText n r a ++ c :: fileText n r b := by
  have parts : ∀ token ∈ replacedTokens, ∀ replacement a b,
      replaceAll (needle token) replacement (a ++ c :: b) =
        replaceAll (needle token) replacement a ++ c :: replaceAll (needle token) replacement b :=
    fun token member replacement =>
      replaceAll_append_cons replacement (delimiter token member) (List.cons_ne_nil _ _)
  rw [fileText, parts "$fileName" (by decide), parts "$fileRef" (by decide),
    parts "fileName" (by decide), parts "fileRef" (by decide), fileText, fileText]

theorem fileText_cons {c : Char} (delimiter : ∀ token ∈ replacedTokens, c ∉ needle token)
    (b : List Char) : fileText n r (c :: b) = c :: fileText n r b :=
  fileText_append_cons delimiter [] b

theorem fileText_escape (cs : List Char) :
    fileText (escape n) (escape r) (escape cs) = escape (fileText n r cs) := by
  have plain : ∀ token ∈ replacedTokens, IsPlainName token := by decide +kernel
  simp only [fileText, needle, replaceAll_escape (plain "$fileName" (by decide)),
    replaceAll_escape (plain "$fileRef" (by decide)),
    replaceAll_escape (plain "fileName" (by decide)),
    replaceAll_escape (plain "fileRef" (by decide))]

theorem fileText_quoted (s : String) : fileText (escape n) (escape r) (quoted s) =
    '"' :: escape (fileText n r s.toList) ++ ['"'] := by
  rw [quoted, List.cons_append, fileText_cons (by decide +kernel),
    fileText_append_cons (by decide +kernel), fileText_escape]
  rfl

/-- Two documents with the same tokens of a file, spelled differently in keys and strings. -/
inductive RespeltIn : Json → Json → Prop
  | leaf {v : Json} : v.isString = false → v.isContainer = false → RespeltIn v v
  | string {s s' : String} : Respelt s.toList s'.toList → RespeltIn (.string s) (.string s')
  | array {items items' : List Json} : items.length = items'.length →
      (∀ i (h : i < items.length) (h' : i < items'.length), RespeltIn items[i] items'[i]) →
      RespeltIn (.array items) (.array items')
  | object {fields fields' : Json.Fields} : fields.length = fields'.length →
      (∀ i (h : i < fields.length) (h' : i < fields'.length),
        Respelt fields[i].1.toList fields'[i].1.toList) →
      (∀ i (h : i < fields.length) (h' : i < fields'.length),
        RespeltIn fields[i].2 fields'[i].2) →
      RespeltIn (.object fields) (.object fields')

theorem fileText_compactItems {items items' : List Json}
    (same : List.Forall₂ (fun v v' => fileText n r (compactChars v) =
      fileText n r (compactChars v')) items items') :
    fileText n r (compactItems items) = fileText n r (compactItems items') := by
  induction same with
  | nil => rfl
  | @cons v v' items items' here later ih =>
    cases later with
    | nil => simpa only [compactItems] using here
    | cons _ _ =>
      have comma := @fileText_append_cons n r ',' (by decide +kernel)
      simp only [compactItems] at ih ⊢
      rw [comma, comma, here, ih]

theorem fileText_compactFields {fields fields' : Json.Fields}
    (same : List.Forall₂ (fun e e' => fileText n r (quoted e.1) = fileText n r (quoted e'.1) ∧
      fileText n r (compactChars e.2) = fileText n r (compactChars e'.2)) fields fields') :
    fileText n r (compactFields fields) = fileText n r (compactFields fields') := by
  have colon := @fileText_append_cons n r ':' (by decide +kernel)
  induction same with
  | nil => rfl
  | @cons e e' fields fields' here later ih =>
    cases later with
    | nil => simp only [compactFields, colon, here]
    | cons _ _ =>
      have comma := @fileText_append_cons n r ',' (by decide +kernel)
      simp only [compactFields, List.append_assoc, List.cons_append] at ih ⊢
      rw [colon, colon, comma, comma, here.1, here.2, ih]

theorem Respelt.fileText_quoted {s s' : String} (h : Respelt s.toList s'.toList)
    (name : '$' ∉ n) (reference : '$' ∉ r) : fileText (escape n) (escape r) (quoted s) =
      fileText (escape n) (escape r) (quoted s') := by
  rw [Import.fileText_quoted, Import.fileText_quoted, h.fileText_eq name reference]

theorem RespeltIn.fileText_eq {v v' : Json} (h : RespeltIn v v') (name : '$' ∉ n)
    (reference : '$' ∉ r) : fileText (escape n) (escape r) (compactChars v) =
      fileText (escape n) (escape r) (compactChars v') := by
  induction h with
  | leaf => rfl
  | string same => exact same.fileText_quoted name reference
  | array length _ ih =>
    have items := fileText_compactItems (List.forall₂_iff_get.mpr ⟨length, ih⟩)
    simp only [compactChars, List.cons_append, fileText_cons (c := '[') (by decide +kernel),
      fileText_append_cons (c := ']') (by decide +kernel), items]
  | object length keys _ ih =>
    have fields := fileText_compactFields (List.forall₂_iff_get.mpr ⟨length, fun i h h' =>
      ⟨(keys i h h').fileText_quoted name reference, ih i h h'⟩⟩)
    simp only [compactChars, List.cons_append, fileText_cons (c := '{') (by decide +kernel),
      fileText_append_cons (c := '}') (by decide +kernel), fields]

/-- Documents that spell the tokens of a file differently become the same. -/
theorem RespeltIn.applyJson_eq {v v' : Json} (h : RespeltIn v v') (free : '$' ∉ name.toList)
    (free' : '$' ∉ reference.toList) :
    (fileTable name reference).applyJson v = (fileTable name reference).applyJson v' := by
  rw [applyJson_fileTable, applyJson_fileTable, h.fileText_eq free free']

end Pieces

end SchemaLoom.Import
