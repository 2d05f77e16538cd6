import SchemaLoom.Json.Basic
import SchemaLoom.Yaml.Value

/-!
# From YAML values to JSON documents

Sequences and mappings keep their order, tags are dropped, and keys that are numbers or truth values
become text. Infinite numbers, the number that is none, and keys of other kinds have no counterpart.
-/

namespace SchemaLoom.Yaml

inductive ConversionError where
  | unrepresentable (number : String)
  | unsupportedKey (kind : String)
deriving DecidableEq, Repr

namespace Value

/-- The kind of a value, for messages. -/
def kind : Value → String
  | .null => "null"
  | .bool _ => "boolean"
  | .number _ => "number"
  | .string _ => "string"
  | .sequence _ => "sequence"
  | .mapping _ => "mapping"
  | .tagged .. => "tagged value"

/-- The text of a key. -/
def keyText : Value → Except ConversionError String
  | .string s => .ok s
  | .number n => .ok (String.ofList n.text)
  | .bool true => .ok "true"
  | .bool false => .ok "false"
  | v => .error (.unsupportedKey v.kind)

end Value

def Number.toJson : Number → Except ConversionError Json
  | .int n => .ok (.number (.int n))
  | .real x => .ok (.number (.real x))
  | .infinity false => .error (.unrepresentable "inf")
  | .infinity true => .error (.unrepresentable "-inf")
  | .nan => .error (.unrepresentable "NaN")

mutual

def Value.toJson : Value → Except ConversionError Json
  | .null => .ok .null
  | .bool b => .ok (.bool b)
  | .number n => n.toJson
  | .string s => .ok (.string s)
  | .sequence items =>
    match itemsToJson items with
    | .ok items => .ok (.array items)
    | .error e => .error e
  | .mapping entries =>
    match entriesToJson [] entries with
    | .ok fields => .ok (.object fields)
    | .error e => .error e
  | .tagged _ v => v.toJson

def itemsToJson : List Value → Except ConversionError (List Json)
  | [] => .ok []
  | v :: vs =>
    match v.toJson with
    | .error e => .error e
    | .ok v =>
      match itemsToJson vs with
      | .ok vs => .ok (v :: vs)
      | .error e => .error e

/-- Puts the entries into `fields` one after the other; keys of one text share an entry. -/
def entriesToJson (fields : Json.Fields) : List (Value × Value) → Except ConversionError Json.Fields
  | [] => .ok fields
  | (k, v) :: rest =>
    match k.keyText with
    | .error e => .error e
    | .ok key =>
      match v.toJson with
      | .error e => .error e
      | .ok v => entriesToJson (Ordered.put key v fields) rest

end

end SchemaLoom.Yaml
