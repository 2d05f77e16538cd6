import SchemaLoom.Json.Basic

/-!
# Places in a document

A location leads from the root of a document to one of its nodes. Replacing one element of an
array by any number of new ones moves the elements behind it; `Splice.shift` says where.
-/

namespace SchemaLoom

/-- One step from a container to a value in it. -/
inductive Segment where
  | key (name : String)
  | index (position : Nat)
deriving DecidableEq, Repr

abbrev Location := List Segment

namespace Json

/-- The value that one step leads to. -/
def child? : Segment → Json → Option Json
  | .key name, .object fields => Ordered.get? name fields
  | .index i, .array items => items[i]?
  | _, _ => none

/-- The value at a location. -/
def at? : Location → Json → Option Json
  | [], v => some v
  | s :: rest, v => (v.child? s).bind (at? rest)

/-- Changes the value that one step leads to. -/
def modifyChild (f : Json → Json) : Segment → Json → Json
  | .key name, .object fields => .object (Ordered.modify name f fields)
  | .index i, .array items => .array (items.modify i f)
  | _, v => v

/-- Changes the value at a location; a location that leads nowhere changes nothing. -/
def modifyAt (f : Json → Json) : Location → Json → Json
  | [], v => f v
  | s :: rest, v => v.modifyChild (modifyAt f rest) s

end Json

/-- One element of an array gave way to `inserted` new ones. -/
structure Splice where
  array : Location
  index : Nat
  inserted : Nat
deriving DecidableEq, Repr

/-- The position, after a splice of its array, of an element other than the replaced one. -/
def Splice.shiftIndex (s : Splice) (position : Nat) : Nat :=
  if position > s.index then position - 1 + s.inserted else position

end SchemaLoom
