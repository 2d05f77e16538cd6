import SchemaLoom.Decimal.Notation
import SchemaLoom.Yaml.Node

/-!
# Values

A plain scalar is a null, a truth value, an integer, a floating point number or text, in this order.
A tag of the core schema asks for one of these, any other global tag for text, and a local tag stays
on the value. A mapping may not repeat a key.
-/

namespace SchemaLoom.Yaml

open Decimal

inductive Number where
  | int (value : Int)
  | real (value : Binary64)
  | infinity (negative : Bool)
  | nan
deriving DecidableEq, Repr

inductive Value where
  | null
  | bool (value : Bool)
  | number (value : Number)
  | string (value : String)
  | sequence (items : List Value)
  | mapping (entries : List (Value × Value))
  | tagged (tag : String) (value : Value)
deriving Repr, Inhabited

namespace Number

/-- Equality of keys: the two zeros are one key. -/
def sameKey : Number → Number → Bool
  | .real x, .real y => x.sameValue y
  | x, y => x == y

/-- A number as the text of a key. -/
def text : Number → List Char
  | .int n => Decimal.integer n
  | .real x => Decimal.real ⟨false⟩ x
  | .infinity negative => (if negative then ['-'] else []) ++ ['.', 'i', 'n', 'f']
  | .nan => ['.', 'n', 'a', 'n']

end Number

/-! ## Scalars -/

def nullTexts : List String := ["null", "Null", "NULL", "~"]

def trueTexts : List String := ["true", "True", "TRUE"]

def falseTexts : List String := ["false", "False", "FALSE"]

def isNull (text : List Char) : Bool := nullTexts.any fun t => t.toList == text

def bool? (text : List Char) : Option Bool :=
  if trueTexts.any fun t => t.toList == text then some true
  else if falseTexts.any fun t => t.toList == text then some false
  else none

/-- The value of a digit in a base, if the character is one. -/
def digitIn? (base : Nat) (c : Char) : Option Nat :=
  match hexDigit? c with
  | some d => if d < base then some d else none
  | none => none

/-- The number that one or more digits of a base form. -/
def natural? (base : Nat) (ds : List Char) : Option Nat :=
  if ds.isEmpty then none
  else ds.foldl (fun n c => do pure ((← n) * base + (← digitIn? base c))) (some 0)

/-- Several digits the first of which is zero: they form text, not a number. -/
def isPaddedZero (text : List Char) : Bool :=
  let ds := match text with
    | '-' :: rest | '+' :: rest => rest
    | _ => text
  ds.length > 1 && ds.head? == some '0' && ds.all Char.isDigit

/-- The base that a text behind its sign announces, and its digits. -/
def base : List Char → Nat × List Char
  | '0' :: 'x' :: ds => (16, ds)
  | '0' :: 'o' :: ds => (8, ds)
  | '0' :: 'b' :: ds => (2, ds)
  | ds => (10, ds)

/-- An integer in base sixteen, eight, two or ten, with one sign. -/
def integer? (text : List Char) : Option Int :=
  if isPaddedZero text then none
  else match text with
    | '-' :: rest => let (b, ds) := base rest; (natural? b ds).map fun n => -(n : Int)
    | '+' :: rest => let (b, ds) := base rest; (natural? b ds).map fun n => (n : Int)
    | rest => let (b, ds) := base rest; (natural? b ds).map fun n => (n : Int)

/-- Integers that a document can hold. -/
def fits64 (n : Int) : Bool := Int64.minValue.toInt ≤ n && n < UInt64.size

/-- Integers that are recognised as such; larger ones are read as floating point numbers. -/
def fits128 (n : Int) : Bool :=
  -170141183460469231731687303715884105728 ≤ n && n ≤ 340282366920938463463374607431768211455

/-- A decimal with an optional fraction and exponent: its digits and the power of ten. -/
def decimal? (text : List Char) : Option (Nat × Int) :=
  let whole := text.takeWhile Char.isDigit
  let rest := text.dropWhile Char.isDigit
  let (fraction, rest) := match rest with
    | '.' :: rest => (rest.takeWhile Char.isDigit, rest.dropWhile Char.isDigit)
    | _ => ([], rest)
  let ds := whole ++ fraction
  let exponent : Option Int := match rest with
    | [] => some 0
    | 'e' :: rest | 'E' :: rest =>
      match rest with
      | '-' :: ds => (natural? 10 ds).map fun n => -(n : Int)
      | '+' :: ds => (natural? 10 ds).map fun n => (n : Int)
      | ds => (natural? 10 ds).map fun n => (n : Int)
    | _ => none
  do
    let digits ← natural? 10 ds
    let e ← exponent
    pure (digits, e - fraction.length)

/-- A floating point number. A decimal beyond the largest number is none. -/
def real? (text : List Char) : Option Number :=
  let (sign, unsigned) := match text with
    | '+' :: rest => (some false, rest)
    | '-' :: rest => (some true, rest)
    | _ => (none, text)
  if [".inf", ".Inf", ".INF"].any fun t => t.toList == unsigned then
    some (.infinity (sign == some true))
  else if sign.isNone && [".nan", ".NaN", ".NAN"].any fun t => t.toList == unsigned then some .nan
  else do
    let (digits, power) ← decimal? unsigned
    let x ← Binary64.ofDecimal? digits power
    pure (.real (x.withSign (sign == some true)))

/-- The value of an integer. Those that 64 bits cannot hold, but 128 bits can, have none. -/
def ofInteger? (n : Int) : Option Value :=
  if fits64 n then some (.number (.int n)) else none

/-- An integer of at most 128 bits. -/
def smallInteger? (text : List Char) : Option Int :=
  (integer? text).bind fun n => if fits128 n then some n else none

/-- The value of a plain scalar without a tag. -/
def plainValue? (text : List Char) : Option Value :=
  if text.isEmpty || isNull text then some .null
  else match bool? text with
    | some b => some (.bool b)
    | none =>
      match smallInteger? text with
      | some n => ofInteger? n
      | none =>
        match if isPaddedZero text then none else real? text with
        | some x => some (.number x)
        | none => some (.string (String.ofList text))

def coreTag (name : String) : Tag := corePrefix ++ asciiBytes name.toList

/-- The value of a scalar with a global tag. -/
def scalarWithTag? (tag : Tag) (text : List Char) : Option Value :=
  if tag = coreTag "bool" then (bool? text).map .bool
  else if tag = coreTag "int" then (smallInteger? text).bind ofInteger?
  else if tag = coreTag "float" then (real? text).map .number
  else if tag = coreTag "null" then if isNull text then some .null else none
  else some (.string (String.ofList text))

/-- The value of a scalar. A local tag begins with `!` and has no say in it. -/
def scalarValue? (tag : Option Tag) (plain : Bool) (text : List Char) : Option Value :=
  match tag.filter fun t => t.head? != some localMark with
  | some tag => scalarWithTag? tag text
  | none => if plain then plainValue? text else some (.string (String.ofList text))

/-! ## Equality of keys -/

/-- The name of a tag, for comparison: a `!` before it does not count, unless it stands alone. -/
def bareName (tag : String) : List Char :=
  match tag.toList with
  | '!' :: c :: cs => c :: cs
  | cs => cs

mutual

/-- Whether two values are the same key. Mappings are compared without regard to order. -/
def Value.sameKey : Value → Value → Bool
  | .null, .null => true
  | .bool a, .bool b => a == b
  | .number a, .number b => a.sameKey b
  | .string a, .string b => a == b
  | .sequence a, .sequence b => sameItems a b
  | .mapping a, .mapping b => a.length == b.length && sameEntries a b
  | .tagged s a, .tagged t b => bareName s == bareName t && a.sameKey b
  | _, _ => false

def sameItems : List Value → List Value → Bool
  | [], [] => true
  | a :: as, b :: bs => a.sameKey b && sameItems as bs
  | _, _ => false

/-- Whether every entry of the first list is among those of the second. -/
def sameEntries : List (Value × Value) → List (Value × Value) → Bool
  | [], _ => true
  | (k, v) :: rest, entries =>
    (entries.any fun (k', v') => k.sameKey k' && v.sameKey v') && sameEntries rest entries

end

/-! ## From nodes to values -/

mutual

/-- The number of tokens that begin or end a node or its parts. -/
def Node.size : Node → Nat
  | .scalar .. | .alias _ => 1
  | .sequence _ items => 2 + sizeItems items
  | .mapping _ entries => 2 + sizeEntries entries

def sizeItems : List Node → Nat
  | [] => 0
  | n :: ns => n.size + sizeItems ns

def sizeEntries : List (Node × Node) → Nat
  | [] => 0
  | (k, v) :: es => k.size + v.size + sizeEntries es

end

/-- The name of a local tag, which stays on its value: the text behind the `!`, or the `!` alone. A
tag that is no text has no name. -/
def localName? : Tag → Option String
  | [] => none
  | mark :: rest =>
    if mark ≠ localMark then none
    else if rest.isEmpty then some "!"
    else String.fromUTF8? rest.toByteArray

/-- Counts the aliases that may still be followed; nothing when there are too many. -/
abbrev Following := StateT Nat Option

def spend : Following Unit := do
  match ← get with
  | 0 => failure
  | left + 1 => set left

/-- The values of the entries, none of which may repeat a key. -/
def distinctEntries (value : Node → Following Value) :
    List (Value × Value) → List (Node × Node) → Following (List (Value × Value))
  | done, [] => pure done
  | done, (k, v) :: rest => do
    let k ← value k
    if done.any fun entry => entry.1.sameKey k then failure
    let v ← value v
    distinctEntries value (done ++ [(k, v)]) rest

/-- The value of a node in which at most `depth` collections stand inside each other, aliases
followed. -/
def valueOf (anchors : Anchors) : Nat → Node → Following Value := fun depth node => do
  let node ← match node with
    | .alias mark => do
      spend
      match anchors.resolve? mark with
      | some node => pure node
      | none => failure
    | node => pure node
  let value ← match node with
    | .scalar tag plain text =>
      match scalarValue? tag plain text with
      | some v => pure v
      | none => failure
    | .sequence _ items =>
      match depth with
      | 0 => failure
      | depth + 1 => .sequence <$> items.mapM (valueOf anchors depth)
    | .mapping _ entries =>
      match depth with
      | 0 => failure
      | depth + 1 => .mapping <$> distinctEntries (valueOf anchors depth) [] entries
    | .alias _ => failure
  match node.tag?.bind localName? with
  | some name => pure (.tagged name value)
  | none => pure value

/-- The deepest nesting of collections, aliases followed. -/
def maxDepth : Nat := 128

/-- Aliases are followed at most a hundred times as often as a document has parts. -/
def Document.value? (d : Document) : Option Value :=
  ((valueOf d.anchors maxDepth d.root).run (d.root.size * 100)).map Prod.fst

/-- The value of a text with one document. -/
def parse (text : String) : Option Value := do
  let tokens ← tokens? text.toList
  let document ← Document.ofTokens? tokens
  document.value?

end SchemaLoom.Yaml
