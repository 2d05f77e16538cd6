import SchemaLoom.Proofs.Docs.Rows
import SchemaLoom.Proofs.Path.Relative

/-!
# Pages with a table of fields

A page in the documented layout has a title, a description and, under a heading, a table of fields
up to a blank line. Reading it yields the fields that the rows of its table document, in order.
-/

namespace SchemaLoom.Docs

/-! ## Lines of cells -/

/-- What may stand beside the outer cells of a line: nothing, or an empty cell, which is a bar. -/
def IsEdge (cells : List Line) : Prop := cells = [] ∨ cells = [[]]

theorem IsEdge.reverse {cells : List Line} (edge : IsEdge cells) : IsEdge cells.reverse := by
  obtain rfl | rfl := edge
  · exact .inl rfl
  · exact .inr rfl

theorem IsEdge.not_mem {cells : List Line} {cell : Line} {c : Char} (edge : IsEdge cells)
    (member : cell ∈ cells) : c ∉ cell := by
  obtain rfl | rfl := edge
  · exact absurd member List.not_mem_nil
  · rw [List.mem_singleton.mp member]
    exact List.not_mem_nil

/-- A line in which cells stand between bars, with blanks around them and a bar at either end or
not. -/
def Barred (cells : List Line) (line : Line) : Prop :=
  ∃ pieces left right, Text.trim line = Text.joinWith ['|'] pieces ∧
    (∀ piece ∈ pieces, '|' ∉ piece) ∧ IsEdge left ∧ IsEdge right ∧
    pieces.map Text.trim = left ++ cells ++ right

/-- The cells without an empty one before others. -/
def dropEdge : List Line → List Line
  | [] :: cell :: cells => cell :: cells
  | cells => cells

theorem headerCells_eq (line : Line) : headerCells line =
    (dropEdge (dropEdge ((Text.splitOn '|' line).map Text.trim)).reverse).reverse := by
  grind [headerCells, dropEdge]

theorem dropEdge_append {left cells : List Line} (edge : IsEdge left)
    (start : ∃ cell, cells.head? = some cell ∧ cell ≠ []) : dropEdge (left ++ cells) = cells := by
  obtain ⟨cell, first, nonempty⟩ := start
  obtain ⟨cells, rfl⟩ : ∃ rest, cells = cell :: rest := List.head?_eq_some_iff.mp first
  obtain rfl | rfl := edge
  · rw [List.nil_append, dropEdge]
    intro _ _ empty
    exact absurd (List.cons.inj empty).1 nonempty
  · rfl

theorem exists_dropEdge (cells : List Line) :
    ∃ left, IsEdge left ∧ cells = left ++ dropEdge cells := by
  unfold dropEdge
  split
  · exact ⟨[[]], .inr rfl, rfl⟩
  · exact ⟨[], .inl rfl, rfl⟩

/-- The cells of a header, none of which is empty, stand between its bars. -/
theorem headerCells_trim_iff {cells : List Line} {line : Line} (nonempty : cells ≠ [])
    (filled : ∀ cell ∈ cells, cell ≠ []) :
    headerCells (Text.trim line) = cells ↔ Barred cells line := by
  rw [headerCells_eq]
  constructor
  · intro read
    obtain ⟨left, left_edge, front⟩ :=
      exists_dropEdge ((Text.splitOn '|' (Text.trim line)).map Text.trim)
    obtain ⟨right, right_edge, back⟩ := exists_dropEdge
      (dropEdge ((Text.splitOn '|' (Text.trim line)).map Text.trim)).reverse
    refine ⟨Text.splitOn '|' (Text.trim line), left, right.reverse,
      (Text.joinWith_splitOn _).symm, fun _ => Text.not_mem_of_mem_splitOn, left_edge,
      right_edge.reverse, ?_⟩
    have middle := congrArg List.reverse back
    rw [List.reverse_reverse, List.reverse_append, read] at middle
    rw [List.append_assoc, ← middle]
    exact front
  · rintro ⟨pieces, left, right, written, free, left_edge, right_edge, cut⟩
    have pieces_nonempty : pieces ≠ [] := by
      rintro rfl
      simp [nonempty] at cut
    have start : ∃ cell, (cells ++ right).head? = some cell ∧ cell ≠ [] := by
      obtain ⟨cell, rest, rfl⟩ := List.exists_cons_of_ne_nil nonempty
      exact ⟨cell, rfl, filled cell List.mem_cons_self⟩
    have stop : ∃ cell, cells.reverse.head? = some cell ∧ cell ≠ [] := by
      obtain ⟨cell, rest, whole⟩ :=
        List.exists_cons_of_ne_nil (List.reverse_ne_nil_iff.mpr nonempty)
      have listed : cell ∈ cells := List.mem_reverse.mp (whole ▸ List.mem_cons_self)
      exact ⟨cell, by rw [whole, List.head?_cons], filled cell listed⟩
    rw [written, Text.splitOn_joinWith pieces_nonempty free, cut, List.append_assoc,
      dropEdge_append left_edge start, List.reverse_append, dropEdge_append right_edge.reverse stop,
      List.reverse_reverse]

theorem isHeader_iff {columns : List String} {line : Line} (nonempty : columns ≠ [])
    (filled : ∀ column ∈ columns, column ≠ "") :
    isHeader columns (Text.trim line) = true ↔ Barred (columns.map String.toList) line := by
  rw [isHeader, beq_iff_eq]
  refine headerCells_trim_iff (by simpa using nonempty) fun cell member => ?_
  obtain ⟨column, listed, rfl⟩ := List.mem_map.mp member
  simpa using filled column listed

theorem isHeader_fields_iff {line : Line} :
    isHeader fieldColumns (Text.trim line) = true ↔ Barred (fieldColumns.map String.toList) line :=
  isHeader_iff (by decide) (by decide)

theorem isHeader_values_iff {line : Line} :
    isHeader valueColumns (Text.trim line) = true ↔ Barred (valueColumns.map String.toList) line :=
  isHeader_iff (by decide) (by decide)

theorem Barred.char {cells : List Line} {line : Line} {c : Char} (barred : Barred cells line)
    (member : c ∈ line) (kept : Text.isBlank c = false) : c = '|' ∨ ∃ cell ∈ cells, c ∈ cell := by
  obtain ⟨pieces, left, right, written, _, left_edge, right_edge, cut⟩ := barred
  have inside : c ∈ Text.trim line := Text.mem_trimBoth member kept
  rw [written] at inside
  obtain bar | ⟨piece, listed, inside⟩ := Text.mem_joinWith inside
  · exact .inl bar
  · have trimmed : c ∈ Text.trim piece := Text.mem_trimBoth inside kept
    have placed : Text.trim piece ∈ left ++ cells ++ right := cut ▸ List.mem_map_of_mem listed
    rw [List.mem_append, List.mem_append] at placed
    obtain (edge | cell) | edge := placed
    · exact absurd trimmed (left_edge.not_mem edge)
    · exact .inr ⟨_, cell, trimmed⟩
    · exact absurd trimmed (right_edge.not_mem edge)

theorem Barred.bar_mem {cells : List Line} {line : Line} (barred : Barred cells line)
    (two : 2 ≤ cells.length) : '|' ∈ line := by
  obtain ⟨pieces, left, right, written, _, _, _, cut⟩ := barred
  have several := congrArg List.length cut
  rw [List.length_map, List.length_append, List.length_append] at several
  apply Text.mem_of_mem_trimBoth (p := Text.isBlank)
  rw [← Text.trim_eq_trimBoth, written]
  rcases pieces with _ | ⟨first, _ | ⟨next, pieces⟩⟩
  · rw [List.length_nil] at several
    omega
  · rw [List.length_singleton] at several
    omega
  · rw [Text.joinWith_cons _ (by simp)]
    exact List.mem_append_right _ List.mem_cons_self

/-! ## Tables -/

/-- The cell of a separator: dashes with an optional colon at either end. -/
def IsDashes (cell : Line) : Prop :=
  ∃ left dashes right, cell = left ++ List.replicate (dashes + 1) '-' ++ right ∧
    (left = [] ∨ left = [':']) ∧ (right = [] ∨ right = [':'])

theorem isRule_of_isDashes {cell : Line} (dashes : IsDashes cell) : isRule cell = true := by
  obtain ⟨left, n, right, rfl, left_edge, right_edge⟩ := dashes
  have dropped : (List.replicate (n + 1) '-' ++ right).dropWhile (· == '-') = right := by
    rw [List.dropWhile_append_of_pos (by simp)]
    obtain rfl | rfl := right_edge <;> rfl
  have first : (List.replicate (n + 1) '-' ++ right).head? = some '-' := by
    simp [List.replicate_succ]
  have rest : (right.isEmpty || right == [':']) = true := by
    obtain rfl | rfl := right_edge <;> rfl
  obtain rfl | rfl := left_edge
  · have unmarked : ¬ (some '-' == some ':') = true := by decide
    simp only [isRule, List.nil_append, first, if_neg unmarked, dropped, rest, BEq.rfl,
      Bool.and_self]
  · have marked : ([':'] ++ List.replicate (n + 1) '-' ++ right).head? = some ':' := rfl
    have behind : ([':'] ++ List.replicate (n + 1) '-' ++ right).drop 1 =
        List.replicate (n + 1) '-' ++ right := rfl
    simp only [isRule, marked, behind, first, dropped, rest, BEq.rfl, if_true, Bool.and_self]

/-- A line of dashes in cells. -/
def IsSeparatorLine (line : Line) : Prop :=
  ∃ cells, cells ≠ [] ∧ (∀ cell ∈ cells, IsDashes cell) ∧ Barred cells line

theorem isSeparator_of_dashes {line : Line} (separates : IsSeparatorLine line) :
    isSeparator (Text.trim line) = true := by
  obtain ⟨cells, nonempty, dashes, barred⟩ := separates
  have filled : ∀ cell ∈ cells, cell ≠ [] := by
    rintro cell member rfl
    obtain ⟨left, n, right, empty, -⟩ := dashes _ member
    simp at empty
  rw [isSeparator, (headerCells_trim_iff nonempty filled).mpr barred, List.all_eq_true]
  exact fun cell member => isRule_of_isDashes (dashes cell member)

/-- A table's rows go up to a blank line or the end. -/
theorem tableRows_append {separator : Line} {rows : List Row} {tail : List Line}
    (separates : IsSeparatorLine separator)
    (stop : ∀ line, tail.head? = some line → Text.trim line = []) :
    tableRows (separator :: rows.map Row.line ++ tail) =
      (rows.map fun r => splitRow (Text.trim r.line), rows.length + 1) := by
  have kept : ∀ line ∈ (rows.map Row.line).map Text.trim, line.contains '|' = true := by
    intro line member
    obtain ⟨r, -, rfl⟩ := List.mem_map.mp (List.map_map ▸ member)
    exact List.contains_iff_mem.mpr (Text.mem_trimBoth (by simp [r.line_eq]) rfl)
  have stopped : (tail.map Text.trim).takeWhile (fun line => line.contains '|') = [] := by
    cases tail with
    | nil => rfl
    | cons line tail => rw [List.map_cons, stop line rfl, List.takeWhile_cons_of_neg (by simp)]
  have taken : ((rows.map Row.line ++ tail).map Text.trim).takeWhile
      (fun line => line.contains '|') = (rows.map Row.line).map Text.trim := by
    rw [List.map_append, List.takeWhile_append_of_pos kept, stopped, List.append_nil]
  simp only [tableRows, List.cons_append, isSeparator_of_dashes separates, if_true,
    List.drop_succ_cons, List.drop_zero, taken]
  simp [Nat.add_comm]

/-! ## Reading lines -/

theorem readLines_append (page : Page) (read lines : List Line) :
    readLines read.length page (read ++ lines) = readLines 0 page lines := by
  induction read with
  | nil => rfl
  | cons line read ih => exact ih

/-- Lines that head no table of fields add none. -/
theorem readLines_fields {lines : List Line} (skip : Nat) (page : Page)
    (headless : ∀ line ∈ lines, ¬ Barred (fieldColumns.map String.toList) line) :
    (readLines skip page lines).fields = page.fields := by
  -- The page changes at a title and at a table of values, and lines are skipped behind either.
  induction lines generalizing skip page with
  | nil => rw [readLines]
  | cons line lines ih =>
    obtain ⟨here, later⟩ := List.forall_mem_cons.mp headless
    have header : isHeader fieldColumns (Text.trim line) ≠ true := mt isHeader_fields_iff.mp here
    cases skip with
    | succ skip => exact ih skip page later
    | zero =>
      simp only [readLines, if_neg header]
      split
      · split
        · exact ih _ _ later
        · exact ih _ _ later
      · split
        · exact ih _ _ later
        · exact ih _ _ later

theorem readLines_between {page : Page} {between : List Line} (titled : page.title ≠ "")
    (headless : ∀ line ∈ between, ¬ Barred (fieldColumns.map String.toList) line ∧
      ¬ Barred (valueColumns.map String.toList) line) (lines : List Line) :
    readLines 0 page (between ++ lines) = readLines 0 page lines := by
  induction between with
  | nil => rfl
  | cons line between ih =>
    obtain ⟨⟨fieldless, valueless⟩, later⟩ := List.forall_mem_cons.mp headless
    rw [← ih later, List.cons_append]
    simp only [readLines, if_neg (mt isHeader_fields_iff.mp fieldless),
      if_neg (mt isHeader_values_iff.mp valueless), if_neg titled]
    split <;> rfl

theorem readLines_table {page : Page} {header separator : Line} {rows : List Row}
    {tail : List Line} (names : Barred (fieldColumns.map String.toList) header)
    (separates : IsSeparatorLine separator)
    (stop : ∀ line, tail.head? = some line → Text.trim line = []) :
    readLines 0 page (header :: (separator :: rows.map Row.line ++ tail)) =
      readLines 0 { page with fields := page.fields ++
        (rows.map fun r => splitRow (Text.trim r.line)).filterMap field? } tail := by
  have untitled : heading? (Text.trim header) = none := by
    rw [heading?]
    intro title marked
    have member : '#' ∈ header :=
      Text.mem_of_mem_trimBoth (p := Text.isBlank) (by
        rw [← Text.trim_eq_trimBoth, marked]
        exact List.mem_cons_self)
    exact absurd (names.char member rfl) (by decide)
  have count : rows.length + 1 = (separator :: rows.map Row.line).length := by simp
  rw [readLines]
  simp only [untitled, isHeader_fields_iff.mpr names, if_true, tableRows_append separates stop]
  rw [count, readLines_append]

theorem heading?_title {title : Line} (named : Text.trim title ≠ []) :
    heading? (Text.trim ('#' :: ' ' :: title)) = some (Text.trim title) := by
  obtain ⟨a, b, whole, ha, hb⟩ := Text.exists_trimBoth Text.isBlank title
  have ⟨_, last⟩ := Text.tight_trimBoth Text.isBlank title
  rw [← Text.trim_eq_trimBoth] at whole
  have padded : '#' :: ' ' :: title = [] ++ ('#' :: ' ' :: (a ++ Text.trim title)) ++ b := by
    simpa using whole
  have tight : Text.Tight Text.isBlank ('#' :: ' ' :: (a ++ Text.trim title)) := by
    constructor
    · simp [show Text.isBlank '#' = false from rfl]
    · intro c final
      apply last c
      rwa [← List.singleton_append, List.append_cons, ← List.append_assoc,
        List.getLast?_append_of_ne_nil _ named] at final
  have start : Text.trim ('#' :: ' ' :: title) = '#' :: ' ' :: (a ++ Text.trim title) := by
    rw [padded, Text.trim_eq_trimBoth, Text.trimBoth_pad (by simp) hb, Text.trimBoth_eq_self tight]
  have once : Text.trim (a ++ Text.trim title ++ []) = Text.trim title := by
    rw [Text.trim_eq_trimBoth, Text.trimBoth_pad ha (by simp)]
    exact Text.trimBoth_eq_self (Text.tight_trimBoth _ _)
  rw [List.append_nil] at once
  rw [start, heading?, once]

theorem readLines_title {title heading : Line} {about : List Line}
    (named : Text.trim title ≠ []) (plain : ∀ line ∈ about, isHeading line = false)
    (marked : isHeading heading = true) (lines : List Line) :
    ∃ page : Page, page.title ≠ "" ∧ page.fields = [] ∧
      readLines 0 Page.empty (('#' :: ' ' :: title) :: (about ++ heading :: lines)) =
        readLines 0 page (heading :: lines) := by
  have paragraph : (about ++ heading :: lines).takeWhile (fun line => !isHeading line) = about :=
    (Text.takeWhile_append_cons (by simpa using plain) (by simpa using marked)).1
  refine ⟨⟨String.ofList (Text.trim title), paragraphText about, [], []⟩, by simpa using named, rfl,
    ?_⟩
  rw [readLines]
  simp only [heading?_title named, Page.empty, if_true, paragraph]
  exact readLines_append _ _ _

/-! ## Documented pages -/

/-- A page that documents fields: a title, a description without headings and, under a heading, a
table of fields up to a blank line, which no other follows. -/
structure TablePage where
  title : Line
  about : List Line
  heading : Line
  gap : List Line
  header : Line
  separator : Line
  rows : List Row
  blank : Line
  rest : List Line
  title_named : Text.trim title ≠ []
  about_plain : ∀ line ∈ about, isHeading line = false
  heading_marked : isHeading heading = true
  gap_barless : ∀ line ∈ gap, '|' ∉ line
  header_names : Barred (fieldColumns.map String.toList) header
  separator_dashed : IsSeparatorLine separator
  blank_trimmed : Text.trim blank = []
  rest_headless : ∀ line ∈ rest, ¬ Barred (fieldColumns.map String.toList) line
  unbroken : ∀ line ∈ title :: heading :: header :: separator :: blank :: (about ++ gap ++ rest),
    '\n' ∉ line

namespace TablePage

variable (page : TablePage)

/-- The lines up to the last row. -/
def body : List Line :=
  ('#' :: ' ' :: page.title) :: (page.about ++ page.heading :: (page.gap ++
    page.header :: page.separator :: page.rows.map Row.line))

def lines : List Line := page.body ++ page.blank :: page.rest

theorem lines_unbroken : ∀ line ∈ page.lines, '\n' ∉ line := by
  have unbroken := page.unbroken
  simp only [List.forall_mem_cons, List.forall_mem_append] at unbroken
  obtain ⟨title, heading, header, separator, blank, ⟨about, gap⟩, rest⟩ := unbroken
  have rows : ∀ line ∈ page.rows.map Row.line, '\n' ∉ line := by
    intro line member
    obtain ⟨r, -, rfl⟩ := List.mem_map.mp member
    exact r.line_unbroken
  simp only [lines, body, List.forall_mem_cons, List.forall_mem_append, List.cons_append]
  exact ⟨by simpa using title, ⟨about, heading, gap, header, separator, rows⟩, blank, rest⟩

theorem exists_tail {text : String}
    (written : text.toList.filter (· != '\r') = Text.joinWith ['\n'] page.lines) :
    ∃ tail, tail <+: page.blank :: page.rest ∧
      Text.lines (text.toList.filter (· != '\r')) = page.body ++ tail := by
  rw [written, Text.lines_joinWith (by simp [lines]) page.lines_unbroken]
  split
  · exact ⟨_, List.dropLast_prefix _, List.dropLast_append_of_ne_nil (by simp)⟩
  · exact ⟨_, List.prefix_rfl, rfl⟩

theorem tail_headless : ∀ line ∈ page.blank :: page.rest,
    ¬ Barred (fieldColumns.map String.toList) line := by
  refine List.forall_mem_cons.mpr ⟨fun barred => ?_, page.rest_headless⟩
  have blanks := Text.trimBoth_eq_nil_iff.mp page.blank_trimmed
  exact absurd (blanks '|' (barred.bar_mem (by decide))) (by decide)

theorem heading_headless {cells : List Line} (unmarked : ∀ cell ∈ cells, '#' ∉ cell) :
    ¬ Barred cells page.heading := by
  intro barred
  have member : '#' ∈ page.heading := by
    have marked := page.heading_marked
    rw [isHeading, beq_iff_eq, Text.trimStart] at marked
    exact (List.dropWhile_suffix _).subset (List.mem_of_head? marked)
  obtain bar | ⟨cell, listed, inside⟩ := barred.char member rfl
  · exact absurd bar (by decide)
  · exact unmarked cell listed inside

/-- Every row with a description, and no other, yields the field that it documents. -/
theorem documents_parse {text : String}
    (written : text.toList.filter (· != '\r') = Text.joinWith ['\n'] page.lines) :
    List.Forall₂ Row.Documents (page.rows.filter fun r => r.description ≠ [])
      (Page.parse text).fields := by
  obtain ⟨tail, beginning, lines_eq⟩ := page.exists_tail written
  have stop : ∀ line, tail.head? = some line → Text.trim line = [] := by
    intro line first
    obtain rfl | ⟨rest, rfl, -⟩ := List.prefix_cons_iff.mp beginning
    · simp at first
    · exact Option.some.inj first ▸ page.blank_trimmed
  have between (line : Line) (member : line ∈ page.heading :: page.gap) :
      ¬ Barred (fieldColumns.map String.toList) line ∧
        ¬ Barred (valueColumns.map String.toList) line := by
    rcases List.mem_cons.mp member with rfl | member
    · exact ⟨page.heading_headless (by decide), page.heading_headless (by decide)⟩
    · exact ⟨fun barred => page.gap_barless line member (barred.bar_mem (by decide)),
        fun barred => page.gap_barless line member (barred.bar_mem (by decide))⟩
  obtain ⟨entitled, titled, empty, start⟩ := readLines_title page.title_named page.about_plain
    page.heading_marked (page.gap ++ page.header ::
      (page.separator :: page.rows.map Row.line ++ tail))
  have whole : page.body ++ tail = ('#' :: ' ' :: page.title) :: (page.about ++ page.heading ::
      (page.gap ++ page.header :: (page.separator :: page.rows.map Row.line ++ tail))) := by
    simp [body]
  -- From the front to the back: the title, what is between it and the table, the table, the rest.
  rw [Page.parse, lines_eq, whole, start, ← List.cons_append, readLines_between titled between,
    readLines_table page.header_names page.separator_dashed stop,
    readLines_fields _ _ fun line member => page.tail_headless line (beginning.subset member),
    empty, List.nil_append]
  exact documents_rows page.rows

/-- A page with two rows, the first without a description. -/
def undescribed : TablePage where
  title := "T".toList
  about := ["A page.".toList]
  heading := "## Fields".toList
  gap := []
  header := "Field | Type | Default | Description".toList
  separator := "---|---|---|---".toList
  rows := [
    { name := ['a'], type := ['T'], target := ['t'], default := ['d'], description := [] },
    { name := ['b'], type := ['T'], target := ['t'], default := [], description := "B.".toList }]
  blank := []
  rest := []
  title_named := by decide
  about_plain := by decide
  heading_marked := by decide
  gap_barless := by decide
  header_names := isHeader_fields_iff.mp (by decide)
  separator_dashed := ⟨List.replicate 4 ['-', '-', '-'], by decide, by
    intro cell member
    rw [List.eq_of_mem_replicate member]
    exact ⟨[], 2, [], rfl, .inl rfl, .inl rfl⟩,
    (headerCells_trim_iff (by decide) (by decide)).mp (by decide)⟩
  blank_trimmed := rfl
  rest_headless := by simp
  unbroken := by decide

def undescribedText : String :=
  "# T\nA page.\n## Fields\nField | Type | Default | Description\n---|---|---|---\n" ++
  "`a` | [T](t) | d | \n`b` | [T](t) |  | B.\n"

/-- The row without a description yields no field. -/
theorem documents_parse_undescribed :
    undescribedText.toList.filter (· != '\r') = Text.joinWith ['\n'] undescribed.lines ∧
      undescribed.rows.map Row.name = [['a'], ['b']] ∧
      (Page.parse undescribedText).fields.map Field.name = ["b"] := by
  have written : undescribedText.toList.filter (· != '\r') =
      Text.joinWith ['\n'] undescribed.lines := by decide +kernel
  refine ⟨written, rfl, ?_⟩
  have documents := undescribed.documents_parse written
  have kept : (undescribed.rows.filter fun r => r.description ≠ []) = undescribed.rows.drop 1 := rfl
  rw [kept] at documents
  generalize (Page.parse undescribedText).fields = fields at documents
  obtain - | ⟨document, - | _⟩ := documents
  rw [List.map_singleton, document.name]

end TablePage

end SchemaLoom.Docs
