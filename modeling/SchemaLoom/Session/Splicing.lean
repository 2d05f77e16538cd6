import SchemaLoom.Context
import SchemaLoom.Directive
import SchemaLoom.Import

/-!
# What an import changes

Items are appended to an array of the layer. Branches take the layer's place when the layer is an
element of an array, and otherwise go to the end of its `allOf`, which is made if it is missing.
-/

namespace SchemaLoom.Splicing

/-- The key under which branches are collected. -/
def allOfKey : String := "allOf"

/-- The entries of the layer at a location. -/
def layer? (document : Json) (location : Location) : Except ImportFault Json.Fields :=
  match document.at? location with
  | some (.object fields) => .ok fields
  | _ => .error (.spliceTarget .layerGone)

/-- The document with the entries of the layer at a location changed. -/
def setLayer (document : Json) (location : Location) (fields : Json.Fields) : Json :=
  document.modifyAt (fun _ => .object fields) location

/-- Appends items to the array under a key of the layer. -/
def appendItems (document : Json) (location : Location) (key : String) (items : List Json) :
    Except ImportFault Json :=
  match layer? document location with
  | .error fault => .error fault
  | .ok fields =>
    match Ordered.get? key fields with
    | some (.array array) =>
      .ok (setLayer document location (Ordered.put key (.array (array ++ items)) fields))
    | _ => .error (.outputKeyMissing key)

/-- Removes the executed directive from the layer. -/
def removeImport (document : Json) (location : Location) : Except ImportFault Json :=
  match layer? document location with
  | .error fault => .error fault
  | .ok fields => .ok (setLayer document location (Ordered.erase Directive.importKey fields))

/-- Appends branches to the layer's `allOf`. -/
def appendBranches (document : Json) (location : Location) (branches : List Json) :
    Except ImportFault Json :=
  match layer? document location with
  | .error fault => .error fault
  | .ok fields =>
    match Ordered.get? allOfKey fields with
    | none => .ok (setLayer document location (Ordered.put allOfKey (.array branches) fields))
    | some (.array array) =>
      .ok (setLayer document location (Ordered.put allOfKey (.array (array ++ branches)) fields))
    | some _ => .error (.spliceTarget .allOfNotArray)

/-- Puts items in the place of the element at an index. -/
def replaceElement (items : List Json) (index : Nat) (branches : List Json) : List Json :=
  items.take index ++ branches ++ items.drop (index + 1)

/-- Puts branches in the layer's place, or into its `allOf`. -/
def insertBranches (document : Json) (context : Context) (branches : List Json) :
    Except ImportFault (Json × Option Splice) :=
  match context.arraySlot? with
  | none =>
    match appendBranches document context.location branches with
    | .error fault => .error fault
    | .ok document => .ok (document, none)
  | some (array, index) =>
    match document.at? array with
    | some (.array items) =>
      if index < items.length then
        .ok (document.modifyAt (fun _ => .array (replaceElement items index branches)) array,
          some ⟨array, index, branches.length⟩)
      else .error (.spliceTarget .slotGone)
    | _ => .error (.spliceTarget .slotGone)

/-- What one directive of an import yields. -/
inductive Yield where
  /-- Branches, also when there are none. -/
  | branches (branches : List Json)
  | items (key : String) (items : List Json)
  | nothing
deriving Repr

/-- The branches collected from the directives of one import; nothing when none yields branches. -/
def collect (collected : Option (List Json)) : Yield → Option (List Json)
  | .branches more => some (collected.getD [] ++ more)
  | _ => collected

/-- The document after a directive that yields items. -/
def place (document : Json) (location : Location) : Yield → Except ImportFault Json
  | .items key items => appendItems document location key items
  | _ => .ok document

/-- The document after the last directive of an import. -/
def finish (document : Json) (context : Context) (collected : Option (List Json)) :
    Except ImportFault (Json × Option Splice) :=
  match removeImport document context.location with
  | .error fault => .error fault
  | .ok document =>
    match collected with
    | some branches => insertBranches document context branches
    | none => .ok (document, none)

end SchemaLoom.Splicing
