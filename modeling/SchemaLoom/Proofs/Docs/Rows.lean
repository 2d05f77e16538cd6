import SchemaLoom.Docs.Page
import SchemaLoom.Proofs.Text.Trimming

/-!
# Rows of a field table

A row documents a field by four cells: its name in backquotes, a link to its type, its default and
its description. Cutting a row at its bars gives the cells back. But the bar at the end of a row is
taken for one that closes it, so a row without a description has only three cells and documents
nothing.
-/

namespace SchemaLoom.Docs

/-- A character that neither separates cells nor belongs to a link. -/
def isPlain (c : Char) : Bool := !(['|', '[', ']', '(', ')', '\n'].contains c)

def isQuote (c : Char) : Bool := c == '"' || c == '`'

/-- A character of a link's target. -/
def isTarget (c : Char) : Bool := !([' ', '[', ']', '(', ')', '\n'].contains c)

/-- What a row says. -/
structure Row where
  name : Line
  type : Line
  target : Line
  default : Line
  description : Line
  name_nonempty : name ≠ [] := by decide
  name_plain : name.all (fun c => isPlain c && c != '`') := by decide
  type_nonempty : type ≠ [] := by decide
  type_trimmed : Text.trim type = type := by decide
  type_plain : type.all (fun c => isPlain c && !isQuote c) := by decide
  target_plain : target.all isTarget := by decide
  default_trimmed : Text.trim default = default := by decide
  default_plain : default.all isPlain := by decide
  description_trimmed : Text.trim description = description := by decide
  description_plain : description.all isPlain := by decide

namespace Row

def nameCell (r : Row) : Line := '`' :: r.name ++ ['`']

def typeCell (r : Row) : Line := '[' :: r.type ++ [']'] ++ ('(' :: r.target ++ [')'])

def cells (r : Row) : List Line := [r.nameCell, r.typeCell, r.default, r.description]

/-- A row as it is written. -/
def line (r : Row) : Line := Text.joinWith [' ', '|', ' '] r.cells

/-- A default says that the field is deprecated, in whatever case. -/
def SaysDeprecated (r : Row) : Prop :=
  ∃ word, word <:+: r.default ∧ word.map Char.toLower = "deprecated".toList

/-- Between quotes at its ends a default has only blanks. -/
def Undefaulted (r : Row) : Prop :=
  ∃ a blanks b, r.default = a ++ blanks ++ b ∧ (∀ c ∈ a, isQuote c = true) ∧
    (∀ c ∈ b, isQuote c = true) ∧ ∀ c ∈ blanks, Text.isBlank c = true

/-- A field is the one that a row documents. A link without a target is no link, and its text
without the bracket before it stands for the type. -/
structure Documents (r : Row) (f : Field) : Prop where
  name : f.name = String.ofList r.name
  typeName : f.typeName =
    String.ofList (if r.target = [] then r.type ++ [']', '(', ')'] else r.type)
  description : f.description = String.ofList r.description
  deprecated : f.isDeprecated = true ↔ r.SaysDeprecated
  optional : f.isOptional = true ↔ ¬ r.SaysDeprecated ∧ ¬ r.Undefaulted

end Row

/-! ## Cutting a row -/

/-- A piece of text through which cutting goes without a cut, with `depth` brackets open. -/
def Passes (depth : Nat) (w : Line) : Prop :=
  ∀ cell rest, cutRow depth cell (w ++ rest) = cutRow depth (w.reverse ++ cell) rest

theorem Passes.append {depth : Nat} {a b : Line} (ha : Passes depth a) (hb : Passes depth b) :
    Passes depth (a ++ b) := by
  intro cell rest
  rw [List.append_assoc, ha, hb, List.reverse_append, List.append_assoc]

theorem passes_plain {depth : Nat} {w : Line}
    (plain : ∀ c ∈ w, c ∉ ['[', '(', ']', ')'] ∧ (depth = 0 → c ≠ '|')) : Passes depth w := by
  intro cell rest
  induction w generalizing cell with
  | nil => rfl
  | cons c w ih =>
    obtain ⟨⟨bracket, bar⟩, others⟩ := List.forall_mem_cons.mp plain
    simp only [List.mem_cons, List.not_mem_nil, or_false, not_or] at bracket
    have closed : ¬ (c = '|' ∧ depth = 0) := fun h => bar h.2 h.1
    rw [List.cons_append, cutRow]
    simp only [bracket, closed, decide_false, Bool.or_false, Bool.false_eq_true, if_false,
      ← Bool.decide_and]
    rw [ih others, List.reverse_cons, List.append_assoc, List.singleton_append]

theorem passes_enclosed {depth : Nat} {w : Line} {opening closing : Char}
    (open_ : opening = '[' ∨ opening = '(') (close : closing = ']' ∨ closing = ')')
    (inside : Passes (depth + 1) w) : Passes depth (opening :: w ++ [closing]) := by
  intro cell rest
  have different : closing ≠ '[' ∧ closing ≠ '(' := by rcases close with rfl | rfl <;> decide
  rw [List.append_assoc, List.cons_append, cutRow, if_pos (by simpa using open_), inside,
    List.singleton_append, cutRow, if_neg (by simpa using different), if_pos (by simpa using close)]
  simp

theorem cutRow_joinWith {pieces : List Line} (nonempty : pieces ≠ [])
    (pass : ∀ piece ∈ pieces, Passes 0 piece) :
    cutRow 0 [] (Text.joinWith ['|'] pieces) = pieces := by
  -- No cut comes before the bar behind the first piece, and the rest is cut on its own.
  induction pieces with
  | nil => exact absurd rfl nonempty
  | cons piece pieces ih =>
    obtain ⟨here, later⟩ := List.forall_mem_cons.mp pass
    cases pieces with
    | nil =>
      have cut := here [] []
      rw [List.append_nil, List.append_nil, cutRow, List.reverse_reverse] at cut
      exact cut
    | cons next pieces =>
      rw [Text.joinWith_cons _ (by simp), here, cutRow, if_neg (by simp), if_neg (by simp),
        if_pos (by simp), ih (by simp) later, List.append_nil, List.reverse_reverse]

theorem isPlain_iff {c : Char} : isPlain c = true ↔
    c ∉ ['[', '(', ']', ')'] ∧ c ≠ '|' ∧ c ≠ '\n' := by
  simp only [isPlain, Bool.not_eq_true', List.contains_eq_mem, decide_eq_false_iff_not,
    List.mem_cons, List.not_mem_nil, or_false]
  tauto

theorem passes_of_isPlain {depth : Nat} {w : Line} (plain : ∀ c ∈ w, isPlain c = true) :
    Passes depth w :=
  passes_plain fun c member => ⟨(isPlain_iff.mp (plain c member)).1,
    fun _ => (isPlain_iff.mp (plain c member)).2.1⟩

theorem splitRow_of_open {line : Line} (start : line.head? ≠ some '|')
    (stop : line.getLast? ≠ some '|') : splitRow line = (cutRow 0 [] line).map Text.trim := by
  simp only [splitRow, beq_iff_eq, if_neg start, if_neg stop]

theorem splitRow_concat {line : Line} (start : (line ++ ['|']).head? ≠ some '|') :
    splitRow (line ++ ['|']) = (cutRow 0 [] line).map Text.trim := by
  have stop : (line ++ ['|']).getLast? = some '|' := List.getLast?_concat
  simp only [splitRow, beq_iff_eq, if_neg start, if_pos stop, List.dropLast_concat]

/-! ## The cells of a row -/

namespace Row

variable (r : Row)

theorem name_chars : ∀ c ∈ r.name, isPlain c = true ∧ c ≠ '`' := by simpa using r.name_plain

theorem type_chars : ∀ c ∈ r.type, isPlain c = true ∧ isQuote c = false := by
  simpa using r.type_plain

theorem target_chars : ∀ c ∈ r.target, isTarget c = true := by simpa using r.target_plain

theorem default_chars : ∀ c ∈ r.default, isPlain c = true := by simpa using r.default_plain

theorem description_chars : ∀ c ∈ r.description, isPlain c = true := by
  simpa using r.description_plain

/-- The text of a row between its bars, up to the last of them. -/
def front : List Line :=
  [r.nameCell ++ [' '], ' ' :: r.typeCell ++ [' '], ' ' :: r.default ++ [' ']]

theorem line_eq : r.line = Text.joinWith ['|'] r.front ++ '|' :: ' ' :: r.description := by
  simp [line, cells, front, Text.joinWith]

theorem nameCell_plain : ∀ c ∈ r.nameCell, isPlain c = true := by
  intro c member
  simp only [nameCell, List.cons_append, List.mem_cons, List.mem_append, List.not_mem_nil,
    or_false] at member
  obtain rfl | member | rfl := member
  · rfl
  · exact (r.name_chars c member).1
  · rfl

theorem passes_typeCell : Passes 0 r.typeCell := by
  have type : Passes 1 r.type := passes_of_isPlain fun c member => (r.type_chars c member).1
  -- A bar in a target stands within its brackets.
  have target : Passes 1 r.target := passes_plain fun c member => by
    have plain := r.target_chars c member
    simp only [isTarget, Bool.not_eq_true', List.contains_eq_mem, decide_eq_false_iff_not] at plain
    refine ⟨?_, by simp⟩
    simp only [List.mem_cons, List.not_mem_nil, or_false] at plain ⊢
    tauto
  exact (passes_enclosed (.inl rfl) (.inl rfl) type).append
    (passes_enclosed (.inr rfl) (.inr rfl) target)

theorem passes_space : Passes 0 [' '] := passes_of_isPlain (List.forall_mem_singleton.mpr rfl)

theorem passes_front : ∀ piece ∈ r.front, Passes 0 piece := by
  have padded {w : Line} (passes : Passes 0 w) : Passes 0 (' ' :: w ++ [' ']) :=
    (passes_space.append passes).append passes_space
  simp only [front, List.forall_mem_cons]
  exact ⟨(passes_of_isPlain r.nameCell_plain).append passes_space, padded r.passes_typeCell,
    padded (passes_of_isPlain r.default_chars), by simp⟩

theorem trim_enclosed {a b : Char} (ha : Text.isBlank a = false) (hb : Text.isBlank b = false)
    (w : Line) : Text.trim (a :: w ++ [b]) = a :: w ++ [b] :=
  Text.trimBoth_eq_self ⟨by simpa using ha, by simpa [List.getLast?_cons] using hb⟩

theorem trim_nameCell : Text.trim r.nameCell = r.nameCell := trim_enclosed rfl rfl _

theorem trim_typeCell : Text.trim r.typeCell = r.typeCell := by
  have whole : r.typeCell = '[' :: (r.type ++ ']' :: '(' :: r.target) ++ [')'] := by simp [typeCell]
  rw [whole, trim_enclosed rfl rfl]

theorem trim_cons_space (w : Line) : Text.trim (' ' :: w) = Text.trim w := by
  have pad : Text.trim ([' '] ++ w ++ []) = Text.trim w :=
    Text.trimBoth_pad (List.forall_mem_singleton.mpr rfl) (by simp) w
  rwa [List.append_nil, List.singleton_append] at pad

theorem trim_concat_space (w : Line) : Text.trim (w ++ [' ']) = Text.trim w :=
  Text.trimBoth_pad (a := []) (by simp) (List.forall_mem_singleton.mpr rfl) w

theorem map_trim_front : r.front.map Text.trim = r.cells.take 3 := by
  simp only [front, cells, List.map_cons, List.map_nil, List.take_succ_cons, List.take_zero,
    trim_concat_space, trim_cons_space, trim_nameCell, trim_typeCell, r.default_trimmed]

theorem head?_line : r.line.head? = some '`' := by simp [line, cells, nameCell, Text.joinWith]

theorem line_unbroken : '\n' ∉ r.line := by
  have type : '\n' ∉ r.type := fun member => absurd (r.type_chars _ member).1 (by decide)
  have target : '\n' ∉ r.target := fun member => absurd (r.target_chars _ member) (by decide)
  have plain {w : Line} (plain : ∀ c ∈ w, isPlain c = true) : '\n' ∉ w := fun member =>
    absurd (plain _ member) (by decide)
  simp [line, cells, Text.joinWith, typeCell, type, target, plain r.nameCell_plain,
    plain r.default_chars, plain r.description_chars]

/-- A row has its four cells, unless it has no description: the bar before it counts as the one that
closes the row then. -/
theorem splitRow_line :
    splitRow (Text.trim r.line) = if r.description = [] then r.cells.take 3 else r.cells := by
  have start := r.head?_line
  have blank : Text.isBlank '`' = false := rfl
  split
  · rename_i undescribed
    have barred : r.line = Text.joinWith ['|'] r.front ++ ['|'] ++ [' '] := by
      simp [line_eq, undescribed]
    have first : (Text.joinWith ['|'] r.front ++ ['|']).head? = some '`' := by
      rw [← start]
      simp [barred]
    have tight : Text.Tight Text.isBlank (Text.joinWith ['|'] r.front ++ ['|']) :=
      ⟨by simp [first, blank], by simp [show Text.isBlank '|' = false from rfl]⟩
    rw [barred, trim_concat_space, Text.trim_eq_trimBoth, Text.trimBoth_eq_self tight,
      splitRow_concat (by simp [first]),
      cutRow_joinWith (by simp [front]) r.passes_front, map_trim_front]
  · rename_i described
    obtain ⟨_, last⟩ : Text.Tight Text.isBlank r.description :=
      Text.trimBoth_eq_self_iff.mp r.description_trimmed
    have stop : r.line.getLast? = r.description.getLast? := by
      rw [line_eq, List.append_cons, List.append_cons, List.getLast?_append_of_ne_nil _ described]
    have tight : Text.Tight Text.isBlank r.line := ⟨by simp [start, blank], stop ▸ last⟩
    have open_ : r.line.getLast? ≠ some '|' := fun bar =>
      (isPlain_iff.mp (r.description_chars '|' (List.mem_of_getLast? (stop ▸ bar)))).2.1 rfl
    have whole : r.line = Text.joinWith ['|'] (r.front ++ [' ' :: r.description]) := by
      rw [line_eq, Text.joinWith_append (by simp [front]) (by simp), Text.joinWith]
    have pass : ∀ piece ∈ r.front ++ [' ' :: r.description], Passes 0 piece :=
      List.forall_mem_append.mpr ⟨r.passes_front, List.forall_mem_singleton.mpr
        (passes_space.append (passes_of_isPlain r.description_chars))⟩
    have trimmed : Text.trim (' ' :: r.description) = r.description :=
      (trim_cons_space _).trans r.description_trimmed
    rw [Text.trim_eq_trimBoth, Text.trimBoth_eq_self tight,
      splitRow_of_open (by simp [start]) open_,
      whole, cutRow_joinWith (by simp) pass, List.map_append, map_trim_front, List.map_singleton,
      trimmed]
    rfl

/-! ## What the cells say -/

theorem filter_nameCell : r.nameCell.filter (· != '`') = r.name := by
  have kept : r.name.filter (· != '`') = r.name :=
    List.filter_eq_self.mpr fun c member => by simpa using (r.name_chars c member).2
  simp [nameCell, kept]

theorem typeCell_eq :
    r.typeCell = '[' :: (r.type ++ ']' :: '(' :: (r.target ++ [')'])) := by
  simp [typeCell]

/-- The brackets of a link with nothing in the second pair are no link. -/
theorem linkName?_typeCell :
    linkName? r.typeCell = if r.target = [] then none else some r.type := by
  have name (rest : Line) :
      (r.type ++ ']' :: rest).takeWhile (fun c => !(c == '\n' || c == '[' || c == ']')) =
        r.type := by
    refine (Text.takeWhile_append_cons (fun c member => ?_) (by decide)).1
    have plain := isPlain_iff.mp (r.type_chars c member).1
    simp only [List.mem_cons, List.not_mem_nil, or_false, not_or] at plain
    simp [plain]
  have target (rest : Line) :
      (r.target ++ ')' :: rest).takeWhile (fun c => !(c == '\n' || c == ' ' || c == ')')) =
        r.target := by
    refine (Text.takeWhile_append_cons (fun c member => ?_) (by decide)).1
    have plain := r.target_chars c member
    simp only [isTarget, Bool.not_eq_true', List.contains_eq_mem, decide_eq_false_iff_not,
      List.mem_cons, List.not_mem_nil, or_false, not_or] at plain
    simp [plain]
  simp only [typeCell_eq, linkName?, name, List.drop_left, target]
  by_cases linked : r.target = [] <;> simp [linked, r.type_nonempty]

theorem firstLink?_of_not_mem {cell : Line} (free : '[' ∉ cell) : firstLink? cell = none := by
  induction cell with
  | nil => rfl
  | cons c cell ih =>
    rw [List.mem_cons, not_or] at free
    have closed : linkName? (c :: cell) = none := by
      rw [linkName?]
      intro rest opened
      exact free.1 (List.cons.inj opened).1.symm
    rw [firstLink?, closed, ih free.2, Option.or_none]

theorem firstLink?_typeCell :
    firstLink? r.typeCell = if r.target = [] then none else some r.type := by
  rw [typeCell_eq, firstLink?, ← typeCell_eq, linkName?_typeCell]
  split
  · rename_i unlinked
    have free : '[' ∉ r.type := fun member =>
      (isPlain_iff.mp (r.type_chars '[' member).1).1 (by decide)
    rw [Option.none_or, firstLink?_of_not_mem (by simp [unlinked, free])]
  · rw [Option.some_or]

theorem stripQuotes_type : stripQuotes r.type = r.type := by
  have unquoted : Text.trimBoth (fun c => c == '"' || c == '`') r.type = r.type :=
    Text.trimBoth_eq_self (.of_forall fun c member => (r.type_chars c member).2)
  rw [stripQuotes, unquoted, r.type_trimmed]

theorem typeName_typeCell :
    typeName r.typeCell = if r.target = [] then r.type ++ [']', '(', ')'] else r.type := by
  rw [typeName, firstLink?_typeCell, trim_typeCell]
  by_cases unlinked : r.target = []
  · have opened : r.typeCell = ['['] ++ (r.type ++ [']', '(', ')']) ++ [] := by
      simp [typeCell, unlinked]
    have head (c : Char) (first : (r.type ++ [']', '(', ')']).head? = some c) :
        (c == '"' || c == '[' || c == ']') = false := by
      rw [List.head?_append_of_ne_nil _ r.type_nonempty] at first
      obtain ⟨plain, unquoted⟩ := r.type_chars c (List.mem_of_head? first)
      have unbracketed := (isPlain_iff.mp plain).1
      simp_all [isQuote]
    simp only [if_pos unlinked]
    rw [opened, Text.trimBoth_pad (List.forall_mem_singleton.mpr rfl) (by simp),
      Text.trimBoth_eq_self ⟨head, by simp⟩]
  · simp only [if_neg unlinked]
    exact r.stripQuotes_type

theorem occursIn_deprecated :
    Text.occursIn "deprecated".toList (r.default.map Char.toLower) = true ↔ r.SaysDeprecated := by
  rw [Text.occursIn_iff, List.infix_map_iff, SaysDeprecated]
  simp only [eq_comm]

theorem stripQuotes_default : stripQuotes r.default = [] ↔ r.Undefaulted := by
  change Text.trim (Text.trimBoth isQuote r.default) = [] ↔ _
  rw [Text.trim_eq_trimBoth, Text.trimBoth_eq_nil_iff]
  constructor
  · intro blank
    obtain ⟨a, b, whole, ha, hb⟩ := Text.exists_trimBoth isQuote r.default
    exact ⟨a, _, b, whole, ha, hb, blank⟩
  · rintro ⟨a, blanks, b, whole, ha, hb, blank⟩
    have unquoted : ∀ c ∈ blanks, isQuote c = false := fun c member => by
      by_contra quote
      have : c = '"' ∨ c = '`' := by
        simpa only [isQuote, Bool.not_eq_false, Bool.or_eq_true, beq_iff_eq] using quote
      obtain rfl | rfl := this <;> exact absurd (blank _ member) (by decide)
    rwa [whole, Text.trimBoth_pad ha hb, Text.trimBoth_eq_self (.of_forall unquoted)]

theorem field?_cells : ∃ f, field? r.cells = some f ∧ r.Documents f := by
  simp only [cells, field?, filter_nameCell, List.isEmpty_iff, if_neg r.name_nonempty]
  refine ⟨_, rfl, ?_⟩
  exact {
    name := rfl
    typeName := congrArg String.ofList r.typeName_typeCell
    description := congrArg String.ofList r.description_trimmed
    deprecated := r.occursIn_deprecated
    optional := by
      rw [Bool.and_eq_true, Bool.not_eq_true', Bool.not_eq_true', ← r.stripQuotes_default,
        ← r.occursIn_deprecated, Bool.not_eq_true, ← List.isEmpty_iff, Bool.not_eq_true] }

end Row

/-- Each row with a description documents a field, in order; a row without one documents none. -/
theorem documents_rows (rows : List Row) :
    List.Forall₂ Row.Documents (rows.filter fun r => r.description ≠ [])
      ((rows.map fun r => splitRow (Text.trim r.line)).filterMap field?) := by
  induction rows with
  | nil => exact .nil
  | cons r rows ih =>
    rw [List.map_cons, r.splitRow_line]
    by_cases undescribed : r.description = []
    · rw [List.filter_cons_of_neg (by simpa using undescribed), if_pos undescribed,
        List.filterMap_cons_none rfl]
      exact ih
    · obtain ⟨f, read, documents⟩ := r.field?_cells
      rw [List.filter_cons_of_pos (by simpa using undescribed), if_neg undescribed,
        List.filterMap_cons_some read]
      exact .cons documents ih

end SchemaLoom.Docs
