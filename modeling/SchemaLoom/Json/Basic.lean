import SchemaLoom.Decimal.Binary64
import SchemaLoom.Ordered

/-!
# JSON documents

Objects keep their entries in order. A number is an integer or a finite floating point number, and
the two are never the same.
-/

namespace SchemaLoom

/-- An integer of 64 bits, signed or unsigned, or a finite floating point number. -/
inductive Json.Number where
  | int (value : Int)
  | real (value : Decimal.Binary64)
deriving DecidableEq, Repr

inductive Json where
  | null
  | bool (value : Bool)
  | number (value : Json.Number)
  | string (value : String)
  | array (items : List Json)
  | object (fields : List (String × Json))
deriving Repr, Inhabited

namespace Json

abbrev Fields := Ordered Json

def isString : Json → Bool
  | .string _ => true
  | _ => false

def isContainer : Json → Bool
  | .array _ | .object _ => true
  | _ => false

def asString? : Json → Option String
  | .string s => some s
  | _ => none

/-- The entry of an object under a key. -/
def get? (key : String) : Json → Option Json
  | .object fields => Ordered.get? key fields
  | _ => none

/-- The text of an object's entry, if that is a string. -/
def getString? (key : String) (value : Json) : Option String :=
  (value.get? key).bind asString?

end Json

end SchemaLoom
