import SchemaLoom.Yaml.Lexer
import SchemaLoom.Yaml.Token

/-!
# The tree of a document

Tokens become nodes by recursive descent. A text holds one document. An anchor gives its node a
mark, and an alias names a mark; a mark that several nodes were given stands for the one that
began last.
-/

namespace SchemaLoom.Yaml

inductive Node where
  | scalar (tag : Option Tag) (plain : Bool) (text : List Char)
  | sequence (tag : Option Tag) (items : List Node)
  | mapping (tag : Option Tag) (entries : List (Node × Node))
  | alias (mark : Nat)
deriving Inhabited

/-- The tag of a node; an alias has none. -/
def Node.tag? : Node → Option Tag
  | .scalar tag .. | .sequence tag _ | .mapping tag _ => tag
  | .alias _ => none

/-- A node without text or properties. -/
def Node.empty : Node := .scalar none true []

/-- A node given a mark. Of the nodes with one mark the one with the largest place counts. -/
structure Marked where
  mark : Nat
  place : Nat
  node : Node

/-- The names of anchors, and the nodes marked so far. -/
structure Anchors where
  names : List (List Char × Nat)
  started : Nat
  nodes : List Marked

namespace Anchors

def find? (name : List Char) : List (List Char × Nat) → Option Nat
  | [] => none
  | (n, mark) :: rest => if n = name then some mark else find? name rest

def put (name : List Char) (mark : Nat) : List (List Char × Nat) → List (List Char × Nat)
  | [] => [(name, mark)]
  | (n, m) :: rest => if n = name then (n, mark) :: rest else (n, m) :: put name mark rest

/-- Begins a node with an anchor: its mark is the number of names known before. -/
def begin_ (name : List Char) (a : Anchors) : Nat × Nat × Anchors :=
  (a.names.length, a.started,
    { a with names := put name a.names.length a.names, started := a.started + 1 })

/-- The node that a mark stands for. -/
def resolve? (mark : Nat) (a : Anchors) : Option Node :=
  (a.nodes.foldl (fun (best : Option Marked) m =>
    if m.mark = mark then
      match best with
      | some b => if b.place ≤ m.place then some m else some b
      | none => some m
    else best) none).map Marked.node

end Anchors

/-- The tokens that are left and the anchors met. -/
structure Builder where
  tokens : List Token
  shorthands : List (List Char × Tag)
  anchors : Anchors

/-- A step of the descent; nothing when the tokens form no document. -/
abbrev Build := StateT Builder Option

namespace Build

def peek : Build (Option Token) := do return (← get).tokens.head?

def skip : Build Unit := modify fun b => { b with tokens := b.tokens.drop 1 }

/-- A tag with its handle written out. -/
def resolveTag (handle : List Char) (suffix : Tag) : Build Tag := do
  if handle.isEmpty then return suffix
  match (← get).shorthands.find? fun s => s.1 == handle with
  | some (_, expansion) => return expansion ++ suffix
  | none => failure

/-- An anchor and a tag, in either order. -/
def properties : Build (Option (List Char) × Option Tag) := do
  match ← peek with
  | some (.anchor name) =>
    skip
    match ← peek with
    | some (.tag handle suffix) =>
      skip
      return (some name, some (← resolveTag handle suffix))
    | _ => return (some name, none)
  | some (.tag handle suffix) =>
    skip
    let anchor ← match ← peek with
      | some (.anchor name) => do skip; pure (some name)
      | _ => pure none
    return (anchor, some (← resolveTag handle suffix))
  | _ => return (none, none)

/-- Builds a node and gives it the mark of its anchor, which its own parts may already name. -/
def anchored (anchor : Option (List Char)) (build : Build Node) : Build Node := do
  match anchor with
  | none => build
  | some name =>
    let (mark, place, anchors) := (← get).anchors.begin_ name
    modify fun b => { b with anchors }
    let node ← build
    modify fun b =>
      { b with anchors := { b.anchors with nodes := ⟨mark, place, node⟩ :: b.anchors.nodes } }
    return node

/-- Whether one of the given tokens comes next. -/
def nextIs (tokens : List Token) : Build Bool := do
  match ← peek with
  | some t => return tokens.contains t
  | none => return false

/-- Requires a token. -/
def expect (token : Token) : Build Unit := do
  if ← nextIs [token] then skip else failure

mutual

/-- A node. Inside a block it may be a block collection, and as the part of a mapping a sequence
whose dashes stand at the mapping's column. -/
def node (bound : Nat) (block indentless : Bool) : Build Node :=
  match bound with
  | 0 => failure
  | bound + 1 => do
    match ← peek with
    | some (.alias name) =>
      skip
      match Anchors.find? name (← get).anchors.names with
      | some mark => return .alias mark
      | none => failure
    | _ =>
      let (anchor, tag) ← properties
      match ← peek with
      | some (.scalar plain text) => skip; anchored anchor (pure (.scalar tag plain text))
      | some .openBracket =>
        skip
        anchored anchor (return .sequence tag (← flowItems bound true))
      | some .openBrace =>
        skip
        anchored anchor (return .mapping tag (← flowEntries bound true))
      | next =>
        if indentless && next == some .dash then
          anchored anchor (return .sequence tag (← dashItems bound))
        else if block && next == some .blockSequence then
          skip
          anchored anchor do
            let items ← dashItems bound
            expect .blockEnd
            return .sequence tag items
        else if block && next == some .blockMapping then
          skip
          anchored anchor (return .mapping tag (← blockEntries bound))
        else if anchor.isSome || tag.isSome then anchored anchor (pure (.scalar tag true []))
        else failure

/-- The items behind dashes. -/
def dashItems (bound : Nat) : Build (List Node) :=
  match bound with
  | 0 => failure
  | bound + 1 => do
    if !(← nextIs [.dash]) then return []
    skip
    let item ←
      if ← nextIs [.dash, .key, .value, .blockEnd] then pure Node.empty else node bound true false
    return item :: (← dashItems bound)

/-- The entries of a block mapping and its end. -/
def blockEntries (bound : Nat) : Build (List (Node × Node)) :=
  match bound with
  | 0 => failure
  | bound + 1 => do
    match ← peek with
    | some .key =>
      skip
      let key ←
        if ← nextIs [.key, .value, .blockEnd] then pure Node.empty else node bound true true
      let value ← blockValue bound
      return (key, value) :: (← blockEntries bound)
    | some .blockEnd => skip; return []
    | _ => failure

/-- The value of a block entry, empty without its mark. -/
def blockValue (bound : Nat) : Build Node :=
  match bound with
  | 0 => failure
  | bound + 1 => do
    if ← nextIs [.value] then
      skip
      if ← nextIs [.key, .value, .blockEnd] then return Node.empty else node bound true true
    else return Node.empty

/-- The items of a flow sequence and its end. An item may be a single pair. -/
def flowItems (bound : Nat) (first : Bool) : Build (List Node) :=
  match bound with
  | 0 => failure
  | bound + 1 => do
    if ← nextIs [.closeBracket] then
      skip
      return []
    if !first then expect .comma
    if ← nextIs [.closeBracket] then
      skip
      return []
    let item ← if ← nextIs [.key] then do skip; singlePair bound else node bound false false
    return item :: (← flowItems bound false)

/-- A pair inside a flow sequence, behind the mark of its key. The token behind the mark of an empty
key is passed over. -/
def singlePair (bound : Nat) : Build Node :=
  match bound with
  | 0 => failure
  | bound + 1 => do
    let key ←
      if ← nextIs [.value, .comma, .closeBracket] then do skip; pure Node.empty
      else node bound false false
    let value ←
      if ← nextIs [.value] then do
        skip
        if ← nextIs [.comma, .closeBracket] then pure Node.empty else node bound false false
      else pure Node.empty
    return .mapping none [(key, value)]

/-- The entries of a flow mapping and its end. -/
def flowEntries (bound : Nat) (first : Bool) : Build (List (Node × Node)) :=
  match bound with
  | 0 => failure
  | bound + 1 => do
    if ← nextIs [.closeBrace] then
      skip
      return []
    if !first then expect .comma
    if ← nextIs [.closeBrace] then
      skip
      return []
    let entry ← flowEntry bound
    return entry :: (← flowEntries bound false)

/-- An entry of a flow mapping; without the mark of a key it has an empty value. -/
def flowEntry (bound : Nat) : Build (Node × Node) :=
  match bound with
  | 0 => failure
  | bound + 1 => do
    if ← nextIs [.key] then
      skip
      let key ←
        if ← nextIs [.value, .comma, .closeBrace] then pure Node.empty else node bound false false
      if ← nextIs [.value] then
        skip
        let value ←
          if ← nextIs [.comma, .closeBrace] then pure Node.empty else node bound false false
        return (key, value)
      else return (key, Node.empty)
    else
      let key ← node bound false false
      return (key, Node.empty)

end

/-- The directives before a document: at most one version, which must be 1.1 or 1.2, and at most one
expansion for a handle. -/
def directives : Nat → Bool → Build Bool
  | 0, _ => failure
  | bound + 1, versioned => do
    match ← peek with
    | some (.version major minor) =>
      if versioned || major != 1 || !(minor == 1 || minor == 2) then failure
      skip
      discard (directives bound true)
      return true
    | some (.tagShorthand handle expansion) =>
      if (← get).shorthands.any fun s => s.1 == handle then failure
      skip
      modify fun b => { b with shorthands := b.shorthands ++ [(handle, expansion)] }
      discard (directives bound versioned)
      return true
    | _ => return false

/-- Passes over the marks that end a document. -/
def documentEnds : Nat → Build Unit
  | 0 => pure ()
  | bound + 1 => do
    if ← nextIs [.documentEnd] then
      skip
      documentEnds bound

/-- The handles that every document knows, unless it says otherwise. -/
def defaultShorthands : List (List Char × Tag) :=
  [(['!'], [localMark]), (['!', '!'], corePrefix)]

/-- The document of a text. Each token is the first of at most three steps that stand inside each
other. -/
def document (bound : Nat) : Build Node := do
  let announced ← directives bound false
  modify fun b => { b with
    shorthands := b.shorthands ++ defaultShorthands.filter fun d => !b.shorthands.any (·.1 == d.1) }
  let root ←
    if ← nextIs [.documentStart] then do
      skip
      match ← peek with
      | none | some .documentStart | some .documentEnd => pure Node.empty
      | some (.version ..) | some (.tagShorthand ..) => pure Node.empty
      | _ => node bound true false
    else if announced then failure
    else match ← peek with
      | none => pure Node.empty
      | _ => node bound true false
  documentEnds bound
  match ← peek with
  | none => return root
  | some _ => failure

end Build

/-- A document and the nodes that its aliases name. -/
structure Document where
  root : Node
  anchors : Anchors

def Document.ofTokens? (tokens : List Token) : Option Document :=
  match (Build.document (3 * tokens.length + 3)).run ⟨tokens, [], ⟨[], 0, []⟩⟩ with
  | some (root, b) => some ⟨root, b.anchors⟩
  | none => none

end SchemaLoom.Yaml
