/-!
# Tables in insertion order

A table is a list of named entries. Putting an entry under a name that is present replaces the value
and keeps the place; a new name goes to the end.
-/

namespace SchemaLoom

/-- Named entries in the order in which their names were first put. -/
abbrev Ordered (α : Type) := List (String × α)

namespace Ordered

variable {α : Type}

def get? (name : String) : Ordered α → Option α
  | [] => none
  | (n, v) :: rest => if n = name then some v else get? name rest

def contains (name : String) (table : Ordered α) : Bool :=
  (get? name table).isSome

def put (name : String) (value : α) : Ordered α → Ordered α
  | [] => [(name, value)]
  | (n, v) :: rest => if n = name then (n, value) :: rest else (n, v) :: put name value rest

/-- Changes the value under a name and leaves a table without that name as it is. -/
def modify (name : String) (f : α → α) : Ordered α → Ordered α
  | [] => []
  | (n, v) :: rest => if n = name then (n, f v) :: rest else (n, v) :: modify name f rest

def erase (name : String) : Ordered α → Ordered α
  | [] => []
  | (n, v) :: rest => if n = name then rest else (n, v) :: erase name rest

/-- Puts every entry of the second table, in its order. -/
def putAll (table more : Ordered α) : Ordered α :=
  more.foldl (fun t entry => put entry.1 entry.2 t) table

def ofList (entries : List (String × α)) : Ordered α :=
  putAll [] entries

end Ordered

end SchemaLoom
