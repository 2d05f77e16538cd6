import Mathlib
import SchemaLoom.Proofs.Substitution.Passes

/-!
# Substitution in documents

Tokens are replaced in the compact text of a document, and the text is read back. For a table of
plain names, whose values other than strings hold no dollar sign, this is a substitution in the
document itself: a string that is exactly one token takes a value that is no string as it is, every
other string and every key takes its own text with the tokens replaced, and the entries of each
object are put together anew, one after the other.

The text is read back only if it is not nested too deep. What counts is the text: a value that a
repeated key loses later still has to be read.
-/

namespace SchemaLoom.Substitution

open Json Text

/-- The value that is no string of the token that a text is exactly. -/
def typed? (table : Substitution) (s : String) : Option Json :=
  (table.find? fun e => !e.2.isString && needle e.1 == s.toList).map Prod.snd

/-- What a string value becomes. -/
def valueFor (table : Substitution) (s : String) : Json :=
  (table.typed? s).getD (.string (table.apply s))

/-- The document with the tokens replaced in it. -/
def inTree (table : Substitution) : Json → Json :=
  rewrite table.valueFor table.apply Ordered.ofList

/-- The document with the tokens replaced and every entry of its objects kept, also where keys have
come to repeat. -/
def spread (table : Substitution) : Json → Json :=
  rewrite table.valueFor table.apply id

/-- A table whose names stand in a document's text as they are and whose values can stand in a
document. -/
structure IsRegular (table : Substitution) : Prop where
  plain : ∀ e ∈ table, IsPlainName e.1
  integral : ∀ e ∈ table, e.2.Integral
  distinct : ∀ e ∈ table, e.2.isString = false → e.2.DistinctKeys
  free : ∀ e ∈ table, e.2.isString = false → e.2.Texts fun s => '$' ∉ s.toList

namespace IsRegular

variable {table : Substitution} {name : String}

theorem empty : IsRegular [] := ⟨by simp, by simp, by simp, by simp⟩

theorem string (h : table.IsRegular) (plain : IsPlainName name) (text : String) :
    IsRegular ((name, .string text) :: table) where
  plain := List.forall_mem_cons.2 ⟨plain, h.plain⟩
  integral := List.forall_mem_cons.2 ⟨.string text, h.integral⟩
  distinct := List.forall_mem_cons.2 ⟨fun _ => .string text, h.distinct⟩
  free := List.forall_mem_cons.2 ⟨by simp [Json.isString], h.free⟩

theorem document (h : table.IsRegular) (plain : IsPlainName name) {w : Json}
    (integral : w.Integral) (distinct : w.DistinctKeys) (free : w.Texts fun s => '$' ∉ s.toList) :
    IsRegular ((name, w) :: table) where
  plain := List.forall_mem_cons.2 ⟨plain, h.plain⟩
  integral := List.forall_mem_cons.2 ⟨integral, h.integral⟩
  distinct := List.forall_mem_cons.2 ⟨fun _ => distinct, h.distinct⟩
  free := List.forall_mem_cons.2 ⟨fun _ => free, h.free⟩

theorem tail {e : String × Json} (h : IsRegular (e :: table)) : table.IsRegular where
  plain := (List.forall_mem_cons.1 h.plain).2
  integral := (List.forall_mem_cons.1 h.integral).2
  distinct := (List.forall_mem_cons.1 h.distinct).2
  free := (List.forall_mem_cons.1 h.free).2

end IsRegular

/-! ## The text pass -/

/-- The text that a list of tokens, replaced one after the other, makes of a text. -/
def replaceTexts (entries : List (String × Json)) (s : String) : String :=
  String.ofList
    (entries.foldl (fun cs e => replaceAll (needle e.1) (valueText e.2) cs) s.toList)

theorem replaceTexts_nil : replaceTexts [] = id := by
  funext s
  simp [replaceTexts]

theorem replaceTexts_cons (e : String × Json) (entries : List (String × Json)) :
    replaceTexts (e :: entries) = replaceTexts entries ∘ replaceText e.1 (valueText e.2) := by
  funext s
  simp [replaceTexts, replaceText]

theorem apply_eq_replaceTexts (table : Substitution) : table.apply = replaceTexts table.ordered :=
  rfl

theorem replaceTexts_of_free (entries : List (String × Json)) {s : String}
    (free : '$' ∉ s.toList) : replaceTexts entries s = s := by
  induction entries with
  | nil => rw [replaceTexts_nil, id]
  | cons e entries ih =>
    have kept : replaceText e.1 (valueText e.2) s = s := by
      rw [replaceText, needle, replaceAll_of_free _ _ free, String.ofList_toList]
    rw [replaceTexts_cons, Function.comp_apply, kept, ih]

theorem foldl_replaceAll_compactChars {entries : List (String × Json)}
    (plain : ∀ e ∈ entries, IsPlainName e.1) {v : Json} (integral : v.Integral) :
    entries.foldl (fun cs e => replaceAll (needle e.1) (escape (valueText e.2)) cs)
        (compactChars v) =
      compactChars
        (rewrite (fun s => .string (replaceTexts entries s)) (replaceTexts entries) id v) := by
  induction entries generalizing v with
  | nil =>
    rw [replaceTexts_nil]
    exact congrArg compactChars (rewrite_string v).symm
  | cons e entries ih =>
    have step := (rewrites_replaceAll (plain e List.mem_cons_self) (valueText e.2)).document
      integral
    rw [List.foldl_cons, step,
      ih (fun f member => plain f (List.mem_cons_of_mem _ member))
        (Integral.rewrite (fun s => .string _) v integral),
      rewrite_rewrite, replaceTexts_cons]
    rfl

theorem applyWith_compactChars {table : Substitution} (plain : ∀ e ∈ table, IsPlainName e.1)
    {v : Json} (integral : v.Integral) :
    applyWith escape table (compactChars v) =
      compactChars (rewrite (fun s => .string (table.apply s)) table.apply id v) := by
  rw [apply_eq_replaceTexts]
  apply foldl_replaceAll_compactChars _ integral
  intro e member
  exact plain e ((List.mergeSort_perm table noLater).mem_iff.1 member)

/-! ## The typed pass -/

/-- A string value before its text is replaced. -/
def documentFor (table : Substitution) (s : String) : Json :=
  (table.typed? s).getD (.string s)

theorem typed?_cons_string {e : String × Json} (h : e.2.isString = true) (table : Substitution) :
    typed? (e :: table) = typed? table := by
  funext s
  simp [typed?, h]

theorem typed?_cons_self {name : String} {w : Json} {s : String} (h : w.isString = false)
    (same : s.toList = needle name) (table : Substitution) :
    typed? ((name, w) :: table) s = some w := by
  simp [typed?, h, same]

theorem typed?_cons_of_ne {name : String} {w : Json} {s : String}
    (other : s.toList ≠ needle name) (table : Substitution) :
    typed? ((name, w) :: table) s = typed? table s := by
  simp [typed?, Ne.symm other]

theorem typed?_of_free (table : Substitution) {s : String} (free : '$' ∉ s.toList) :
    table.typed? s = none := by
  simp only [typed?, Option.map_eq_none_iff, List.find?_eq_none, Bool.and_eq_true, beq_iff_eq]
  rintro e - ⟨-, same⟩
  exact free (by simp [← same, needle])

theorem mem_of_typed? {table : Substitution} {s : String} {w : Json} (h : table.typed? s = some w) :
    ∃ e ∈ table, e.2 = w ∧ e.2.isString = false := by
  obtain ⟨e, found, rfl⟩ := Option.map_eq_some_iff.1 h
  have holds := List.find?_some found
  simp only [Bool.and_eq_true, Bool.not_eq_true'] at holds
  exact ⟨e, List.mem_of_find?_eq_some found, rfl, holds.1⟩

theorem rewrite_free {value : String → Json} {key : String → String}
    (keeps : ∀ s : String, '$' ∉ s.toList → value s = .string s ∧ key s = s) {w : Json}
    (free : w.Texts fun s => '$' ∉ s.toList) : rewrite value key id w = w :=
  rewrite_eq_self keeps w free

theorem integral_documentFor {table : Substitution} (integral : ∀ e ∈ table, e.2.Integral)
    (s : String) : (table.documentFor s).Integral := by
  cases found : table.typed? s with
  | none => simpa [documentFor, found] using Integral.string s
  | some w =>
    obtain ⟨e, member, rfl, -⟩ := mem_of_typed? found
    simpa [documentFor, found] using integral e member

theorem applyTyped_cons (e : String × Json) (table : Substitution) (cs : List Char) :
    applyTyped (e :: table) cs =
      applyTyped table (if e.2.isString then cs
        else replaceQuoted (quotedNeedle e.1) (compactChars e.2) 0 false cs) := rfl

theorem applyTyped_compactChars {table : Substitution} (regular : table.IsRegular) {v : Json}
    (integral : v.Integral) :
    applyTyped table (compactChars v) = compactChars (rewrite table.documentFor id id v) := by
  induction table generalizing v with
  | nil =>
    have none : documentFor [] = Json.string := rfl
    rw [none, rewrite_string]
    rfl
  | cons e table ih =>
    obtain ⟨name, w⟩ := e
    rw [applyTyped_cons]
    by_cases string : w.isString = true
    · have skip : documentFor ((name, w) :: table) = documentFor table := by
        funext s
        rw [documentFor, typed?_cons_string string, documentFor]
      rw [if_pos string, ih regular.tail integral, skip]
    · have typed : w.isString = false := by simpa using string
      have free := regular.free (name, w) List.mem_cons_self typed
      have put : ∀ s, (putDocument name w s).Integral := by
        intro s
        unfold putDocument
        split
        · exact regular.integral (name, w) List.mem_cons_self
        · exact .string s
      have step := (rewrites_replaceQuoted (regular.plain (name, w) List.mem_cons_self) w).document
        integral
      -- A value put in place of one token holds no further token.
      have both : (fun s => rewrite (documentFor table) id id (putDocument name w s)) =
          documentFor ((name, w) :: table) := by
        funext s
        by_cases same : s.toList = needle name
        · rw [putDocument, if_pos same, documentFor, typed?_cons_self typed same, Option.getD_some]
          exact rewrite_free (fun t tokenless => by simp [documentFor, typed?_of_free _ tokenless])
            free
        · rw [putDocument, if_neg same, documentFor, typed?_cons_of_ne same, rewrite, documentFor]
      rw [if_neg string, step, ih regular.tail (Integral.rewrite put v integral),
        rewrite_rewrite, both]
      rfl

/-! ## Both passes -/

/-- The text of the document with the tokens replaced. -/
theorem passes_compactChars {table : Substitution} (regular : table.IsRegular) {v : Json}
    (integral : v.Integral) :
    applyWith escape table (applyTyped table (compactChars v)) = compactChars (table.spread v) := by
  have both : (fun s => rewrite (fun t => .string (table.apply t)) table.apply id
      (table.documentFor s)) = table.valueFor := by
    funext s
    cases found : table.typed? s with
    | none => simp [documentFor, valueFor, found, rewrite]
    | some w =>
      obtain ⟨e, member, rfl, typed⟩ := mem_of_typed? found
      rw [documentFor, valueFor, found, Option.getD_some, Option.getD_some]
      exact rewrite_free
        (fun t tokenless => by simp [apply_eq_replaceTexts, replaceTexts_of_free _ tokenless])
        (regular.free e member typed)
  rw [applyTyped_compactChars regular integral, applyWith_compactChars regular.plain
    (Integral.rewrite (integral_documentFor regular.integral) v integral), rewrite_rewrite, both]
  rfl

theorem integral_spread {table : Substitution} (regular : table.IsRegular) {v : Json}
    (integral : v.Integral) : (table.spread v).Integral := by
  apply Integral.rewrite _ v integral
  intro s
  cases found : table.typed? s with
  | none => simpa [valueFor, found] using Integral.string _
  | some w =>
    obtain ⟨e, member, rfl, -⟩ := mem_of_typed? found
    simpa [valueFor, found] using regular.integral e member

/-- Gathering the entries afterwards or while the tokens are replaced is the same. -/
theorem merged_spread {table : Substitution} (regular : table.IsRegular) (v : Json) :
    (table.spread v).merged = table.inTree v := by
  have values : (fun s => merged (table.valueFor s)) = table.valueFor := by
    funext s
    cases found : table.typed? s with
    | none => simp [valueFor, found, rewrite]
    | some w =>
      obtain ⟨e, member, rfl, typed⟩ := mem_of_typed? found
      simpa [valueFor, found] using merged_eq_self _ (regular.distinct e member typed)
  rw [spread, merged, rewrite_rewrite, inTree]
  exact congrFun (congrArg₂ (fun f k => rewrite f k Ordered.ofList) values rfl) v

theorem applyJson_of_nonempty {table : Substitution} (regular : table.IsRegular)
    (nonempty : table.isEmpty = false) {v : Json} (integral : v.Integral) :
    table.applyJson v =
      if (table.spread v).nesting ≤ maxDepth then some (table.inTree v) else none := by
  rw [applyJson, nonempty, passes_compactChars regular integral,
    parseChars_compactChars (integral_spread regular integral), merged_spread regular]
  simp

theorem inTree_empty {v : Json} (distinct : v.DistinctKeys) : inTree [] v = v := by
  have value : valueFor [] = Json.string := by
    funext s
    simp [valueFor, typed?, apply_eq_replaceTexts, ordered, replaceTexts_nil]
  have key : apply [] = id := by
    rw [apply_eq_replaceTexts, ordered, List.mergeSort_nil, replaceTexts_nil]
  rw [inTree, value, key]
  exact merged_eq_self v distinct

/-- Replacing tokens in the text of a document and reading the text back replaces them in the
document, unless the text is nested too deep to be read. -/
theorem applyJson_eq_inTree {table : Substitution} (regular : table.IsRegular) {v : Json}
    (distinct : v.DistinctKeys) (integral : v.Integral) :
    table.applyJson v =
      if table.isEmpty ∨ (table.spread v).nesting ≤ maxDepth then some (table.inTree v)
      else none := by
  cases empty : table.isEmpty with
  | true =>
    obtain rfl : table = [] := by simpa using empty
    simp [applyJson, inTree_empty distinct]
  | false =>
    rw [applyJson_of_nonempty regular empty integral]
    simp

/-- A number for a whole string and inside a text, a document for a whole string, and a text with
quotes in a key. -/
def limits : Substitution :=
  [("min", .number (.int 5)), ("limits", .object [("min", .null)]), ("name", .string "\"a\"")]

def limited : Json :=
  .object [("$name", .string "$min"),
    ("5", .array [.string "$limits", .string "at least $min"]), ("$min", .string "$name")]

theorem limits_isRegular : limits.IsRegular := by
  apply IsRegular.document _ (by decide) (.number (by decide) (by decide))
    (.number _) (.number _)
  apply IsRegular.document _ (by decide) (.object (by simpa using .null))
    (.object (by simp) (by simpa using .null)) (.object (by simp) (by simpa using .null))
  exact IsRegular.empty.string (by decide) _

theorem limited_distinct : limited.DistinctKeys := by
  refine .object (by decide) ?_
  simp only [List.forall_mem_cons, List.not_mem_nil, false_imp_iff, implies_true, and_true]
  exact ⟨.string _, .array (by simpa using ⟨.string _, .string _⟩), .string _⟩

theorem limited_integral : limited.Integral := by
  refine .object ?_
  simp only [List.forall_mem_cons, List.not_mem_nil, false_imp_iff, implies_true, and_true]
  exact ⟨.string _, .array (by simpa using ⟨.string _, .string _⟩), .string _⟩

theorem applyJson_eq_inTree_limited :
    limits.IsRegular ∧ limited.DistinctKeys ∧ limited.Integral ∧
      limits.applyJson limited =
        some (.object [("\"a\"", .number (.int 5)), ("5", .string "\"a\"")]) := by
  refine ⟨limits_isRegular, limited_distinct, limited_integral, ?_⟩
  have shallow : (limits.spread limited).nesting ≤ maxDepth := by cbv
  have tree : limits.inTree limited =
      .object [("\"a\"", .number (.int 5)), ("5", .string "\"a\"")] := by cbv
  rw [applyJson_eq_inTree limits_isRegular limited_distinct limited_integral,
    if_pos (.inr shallow), tree]

/-! ## A value that is lost -/

/-- A document inside so many arrays. -/
def nested : Nat → Json → Json
  | 0, v => v
  | n + 1, v => .array [nested n v]

theorem nesting_nested (n : Nat) (v : Json) : (nested n v).nesting = n + v.nesting := by
  induction n with
  | zero => simp [nested]
  | succ n ih =>
    simp only [nested, nesting, itemsNesting, ih]
    omega

theorem rewrite_nested (value : String → Json) (key : String → String) (gather : Fields → Fields)
    (n : Nat) (v : Json) :
    rewrite value key gather (nested n v) = nested n (rewrite value key gather v) := by
  induction n with
  | zero => rfl
  | succ n ih => simp [nested, rewrite, rewriteItems, ih]

theorem integral_nested {v : Json} (integral : v.Integral) (n : Nat) :
    (nested n v).Integral := by
  induction n with
  | zero => exact integral
  | succ n ih => exact .array (by simpa using ih)

theorem distinct_nested {v : Json} (distinct : v.DistinctKeys) (n : Nat) :
    (nested n v).DistinctKeys := by
  induction n with
  | zero => exact distinct
  | succ n ih => exact .array (by simpa using ih)

theorem texts_nested {p : String → Prop} {v : Json} (texts : v.Texts p) (n : Nat) :
    (nested n v).Texts p := by
  induction n with
  | zero => exact texts
  | succ n ih => exact .array (by simpa using ih)

/-- A deep value, and a token that makes two keys of a document the same. -/
def colliding : Substitution := [("deep", nested 40 .null), ("k", .string "x")]

/-- The deep value goes under the first of the two keys. -/
def losing : Json :=
  .object [("$k", nested 100 (.string "$deep")), ("x", .number (.int 1))]

theorem colliding_isRegular : colliding.IsRegular := by
  apply IsRegular.document _ (by decide) (integral_nested .null 40)
    (distinct_nested .null 40) (texts_nested .null 40)
  exact IsRegular.empty.string (by decide) _

theorem losing_distinct : losing.DistinctKeys := by
  refine .object (by decide) ?_
  simp only [List.forall_mem_cons, List.not_mem_nil, false_imp_iff, implies_true, and_true]
  exact ⟨distinct_nested (.string _) 100, .number _⟩

theorem losing_integral : losing.Integral := by
  refine .object ?_
  simp only [List.forall_mem_cons, List.not_mem_nil, false_imp_iff, implies_true, and_true]
  exact ⟨integral_nested (.string _) 100, .number (by decide) (by decide)⟩

theorem colliding_apply : colliding.apply "$k" = "x" ∧ colliding.apply "x" = "x" := by
  constructor <;> cbv

theorem inTree_losing : colliding.inTree losing = .object [("x", .number (.int 1))] := by
  simp [losing, inTree, rewrite, rewriteFields, colliding_apply, Ordered.ofList, Ordered.putAll,
    Ordered.put]

theorem nesting_spread_losing : (colliding.spread losing).nesting = 141 := by
  have value : colliding.valueFor "$deep" = nested 40 .null := rfl
  simp [losing, spread, rewrite, rewriteFields, rewrite_nested, value, nesting, fieldsNesting,
    nesting_nested]

/-- The document and its substituted tree are shallow, and yet the replaced text cannot be read. -/
theorem applyJson_losing :
    colliding.IsRegular ∧ losing.DistinctKeys ∧ losing.Integral ∧ losing.nesting ≤ maxDepth ∧
      (colliding.inTree losing).nesting ≤ maxDepth ∧
      colliding.applyJson losing ≠ some (colliding.inTree losing) := by
  refine ⟨colliding_isRegular, losing_distinct, losing_integral, ?_, ?_, ?_⟩
  · simp [losing, nesting, fieldsNesting, nesting_nested, maxDepth]
  · rw [inTree_losing]
    decide
  · rw [applyJson_of_nonempty colliding_isRegular rfl losing_integral, nesting_spread_losing,
      if_neg (by decide)]
    simp

end SchemaLoom.Substitution
