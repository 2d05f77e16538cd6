import SchemaLoom.Text.Blank
import SchemaLoom.Text.Search

/-!
# Documentation pages

A page is a text in lines. The first `# ` heading is its title, the lines up to the next heading
its description. A table headed `Field | Type | Default | Description` documents fields, one
headed `Value | Description` values; a table ends at a line that is blank or has no bar. Bars
inside brackets or parentheses do not separate cells.
-/

namespace SchemaLoom.Docs

structure Field where
  name : String
  typeName : String
  isOptional : Bool
  description : String
  isDeprecated : Bool
deriving DecidableEq, Repr

structure Page where
  title : String
  description : String
  fields : List Field
  values : List String
deriving DecidableEq, Repr

def Page.empty : Page := ⟨"", "", [], []⟩

/-- The first field with a name. -/
def Page.field? (p : Page) (name : String) : Option Field :=
  p.fields.find? fun f => f.name == name

abbrev Line := List Char

/-- The cells of a header line between its bars, one bar at either end left out. -/
def headerCells (line : Line) : List Line :=
  let cells := (Text.splitOn '|' line).map Text.trim
  let cells := match cells with
    | [] :: c :: rest => c :: rest
    | _ => cells
  match cells.reverse with
  | [] :: c :: rest => (c :: rest).reverse
  | _ => cells

/-- Whether a line is the header of a table with the given columns. -/
def isHeader (columns : List String) (line : Line) : Bool :=
  headerCells line == columns.map String.toList

def fieldColumns : List String := ["Field", "Type", "Default", "Description"]

def valueColumns : List String := ["Value", "Description"]

/-- Dashes with an optional colon at either end. -/
def isRule (cell : Line) : Bool :=
  let cell := if cell.head? == some ':' then cell.drop 1 else cell
  let dashes := cell.dropWhile (· == '-')
  cell.head? == some '-' && (dashes.isEmpty || dashes == [':'])

/-- Whether a line separates a header from the rows. -/
def isSeparator (line : Line) : Bool :=
  (headerCells line).all isRule

/-- Cuts a row at the bars outside of brackets and parentheses. `depth` counts those that are open,
`cell` is the current cell, reversed. -/
def cutRow (depth : Nat) (cell : Line) : Line → List Line
  | [] => [cell.reverse]
  | c :: cs =>
    if c = '[' || c = '(' then cutRow (depth + 1) (c :: cell) cs
    else if c = ']' || c = ')' then cutRow (depth - 1) (c :: cell) cs
    else if c = '|' && depth = 0 then cell.reverse :: cutRow 0 [] cs
    else cutRow depth (c :: cell) cs

/-- The trimmed cells of a row, one bar at either end left out. -/
def splitRow (line : Line) : List Line :=
  let line := if line.head? == some '|' then line.drop 1 else line
  let line := if line.getLast? == some '|' then line.dropLast else line
  (cutRow 0 [] line).map Text.trim

/-- A text without the quotes around it. -/
def stripQuotes (cs : Line) : Line :=
  Text.trim (Text.trimBoth (fun c => c == '"' || c == '`') cs)

/-- The name of a link `[name](target)` with which a text begins. -/
def linkName? : Line → Option Line
  | '[' :: rest =>
    let name := rest.takeWhile fun c => !(c == '\n' || c == '[' || c == ']')
    match rest.drop name.length with
    | ']' :: '(' :: rest =>
      let target := rest.takeWhile fun c => !(c == '\n' || c == ' ' || c == ')')
      if !name.isEmpty && !target.isEmpty && (rest.drop target.length).head? == some ')' then
        some name
      else none
    | _ => none
  | _ => none

/-- The name of the first link in a text. -/
def firstLink? : Line → Option Line
  | [] => none
  | c :: cs => (linkName? (c :: cs)).or (firstLink? cs)

/-- The type that a cell names: the first link's name, or the text without quotes and brackets. -/
def typeName (cell : Line) : Line :=
  match firstLink? cell with
  | some name => stripQuotes name
  | none => Text.trimBoth (fun c => c == '"' || c == '[' || c == ']') (Text.trim cell)

/-- The field that a row documents. A default makes a field optional unless it says that the field
is deprecated. -/
def field? : List Line → Option Field
  | name :: type :: default :: description :: _ =>
    let name := name.filter (· != '`')
    let isDeprecated := Text.occursIn "deprecated".toList (default.map Char.toLower)
    if name.isEmpty then none
    else some {
      name := String.ofList name
      typeName := String.ofList (typeName type)
      isOptional := !isDeprecated && !(stripQuotes default).isEmpty
      description := String.ofList (Text.trim description)
      isDeprecated }
  | _ => none

/-- The value that a row documents. -/
def value? : List Line → Option String
  | cell :: _ =>
    let value := stripQuotes cell
    if value.isEmpty then none else some (String.ofList value)
  | [] => none

def isHeading (line : Line) : Bool := (Text.trimStart line).head? == some '#'

/-- The lines of a paragraph as one text. -/
def paragraphText (lines : List Line) : String :=
  String.ofList (Text.trim (Text.joinWith ['\n'] (lines.map Text.trim)))

/-- The rows of a table, without a separator before them, and the number of lines they take. -/
def tableRows (lines : List Line) : List (List Line) × Nat :=
  let separator := match lines with
    | line :: _ => if isSeparator (Text.trim line) then 1 else 0
    | [] => 0
  let rows := ((lines.drop separator).map Text.trim).takeWhile fun line => line.contains '|'
  (rows.map splitRow, separator + rows.length)

/-- The title that a line announces. -/
def heading? : Line → Option Line
  | '#' :: ' ' :: title => some (Text.trim title)
  | _ => none

/-- Reads lines into a page; the first `skip` lines are read already. -/
def readLines : Nat → Page → List Line → Page
  | _, page, [] => page
  | skip + 1, page, _ :: rest => readLines skip page rest
  | 0, page, line :: rest =>
    let line := Text.trim line
    match heading? line with
    | some title =>
      if page.title = "" then
        let paragraph := rest.takeWhile fun line => !isHeading line
        readLines paragraph.length
          { page with title := String.ofList title, description := paragraphText paragraph } rest
      else readLines 0 page rest
    | none =>
      if isHeader fieldColumns line then
        let (rows, count) := tableRows rest
        readLines count { page with fields := page.fields ++ rows.filterMap field? } rest
      else if isHeader valueColumns line then
        let (rows, count) := tableRows rest
        readLines count { page with values := page.values ++ rows.filterMap value? } rest
      else readLines 0 page rest

/-- The page that a text holds; carriage returns do not count. -/
def Page.parse (text : String) : Page :=
  readLines 0 Page.empty (Text.lines (text.toList.filter (· != '\r')))

end SchemaLoom.Docs
