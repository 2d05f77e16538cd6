import SchemaLoom.Ordered

/-!
# TOML values

A table remembers how it came to be: by a header of its own, by headers below it, or by dotted keys.
This decides what may still be added to it. Floating point numbers and dates are kept as their kind
only.
-/

namespace SchemaLoom.Toml

/-- How a table came to be. -/
inductive Origin where
  /-- By its own header, or in braces. -/
  | stated
  /-- By the header of a table inside it. -/
  | implied
  /-- By a dotted key. -/
  | dotted
deriving DecidableEq, Repr

inductive Value where
  | string (text : String)
  | integer (value : Int)
  | boolean (value : Bool)
  | float
  | date
  | array (items : List Value)
  | table (origin : Origin) (entries : List (String × Value))
  /-- The tables of an array that is extended header by header. -/
  | tables (items : List (List (String × Value)))
deriving Repr, Inhabited

abbrev Entries := Ordered Value

/-- Puts a new entry into a table whose origin is given. A key may be put once, and a key of one
part goes into a table that dotted keys did not make. -/
def putNew (origin : Origin) (viaPath : Bool) (key : String) (value : Value) (entries : Entries) :
    Option Entries :=
  if (origin == .dotted) != viaPath || Ordered.contains key entries then none
  else some (Ordered.put key value entries)

/-- Changes the table that a path leads to, for dotted keys or for a header. Tables on the way are
made; dotted keys pass only through tables that are not stated, and both go into the last table of
an array. -/
def changeAt (dotted : Bool) (change : Origin → Entries → Option Entries) :
    List String → Origin → Entries → Option Entries
  | [], origin, entries => change origin entries
  | key :: path, _, entries =>
    match Ordered.get? key entries with
    | none =>
      let origin := if dotted then Origin.dotted else .implied
      (changeAt dotted change path origin []).map fun inner =>
        Ordered.put key (.table origin inner) entries
    | some (.table origin inner) =>
      if dotted && origin == .stated then none
      else (changeAt dotted change path origin inner).map fun inner =>
        Ordered.put key (.table origin inner) entries
    | some (.tables items) =>
      match items.getLast? with
      | some last =>
        (changeAt dotted change path .stated last).map fun inner =>
          Ordered.put key (.tables (items.dropLast ++ [inner])) entries
      | none => none
    | some _ => none

/-- Puts the value of a dotted key into a table. -/
def putKey (path : List String) (value : Value) (origin : Origin) (entries : Entries) :
    Option Entries :=
  match path.getLast? with
  | none => none
  | some key =>
    let way := path.dropLast
    changeAt true (fun o inner => putNew o (!way.isEmpty) key value inner) way origin entries

/-- Opens the table of a header. It must be new, or so far only implied. -/
def openTable (path : List String) (entries : Entries) : Option Entries :=
  match path.getLast? with
  | none => none
  | some key =>
    changeAt false (fun _ inner =>
      match Ordered.get? key inner with
      | none => some (Ordered.put key (.table .stated []) inner)
      | some (.table .implied existing) => some (Ordered.put key (.table .stated existing) inner)
      | some _ => none) path.dropLast .stated entries

/-- Opens one more table of an array. -/
def openElement (path : List String) (entries : Entries) : Option Entries :=
  match path.getLast? with
  | none => none
  | some key =>
    changeAt false (fun _ inner =>
      match Ordered.get? key inner with
      | none => some (Ordered.put key (.tables [[]]) inner)
      | some (.tables items) => some (Ordered.put key (.tables (items ++ [[]])) inner)
      | some _ => none) path.dropLast .stated entries

/-- Puts the value of a key into the table that the last header opened. -/
def putUnder (header path : List String) (value : Value) (entries : Entries) : Option Entries :=
  changeAt false (fun origin inner => putKey path value origin inner) header .stated entries

end SchemaLoom.Toml
