import SchemaLoom.Context
import SchemaLoom.Directive
import SchemaLoom.Substitution

/-!
# Finding directives

The nodes of a document are visited from the root down and in order. Every import and every
templated field is recorded with its context; nothing is changed. What follows an import in its
layer belongs to the import and is not visited, and neither is what stands under another
directive.
-/

namespace SchemaLoom

/-- What a directive asks for, executed after the whole document was visited. -/
inductive Action where
  /-- The import with these arguments on the layer. -/
  | importing (arguments : Json)
  /-- The tokens in the layer's field. -/
  | template (key : String)
deriving Repr

/-- A directive and the layer it was found on. -/
structure DeferredCall where
  context : Context
  action : Action
deriving Repr

structure Discovery where
  calls : List DeferredCall
  /-- The keys shaped like directives that mean nothing. -/
  unknown : List String
deriving Repr

namespace Discovery

def none : Discovery := ⟨[], []⟩

def append (a b : Discovery) : Discovery := ⟨a.calls ++ b.calls, a.unknown ++ b.unknown⟩

instance : Append Discovery := ⟨append⟩

/-- The keys of a schema under which an object maps names to schemas. -/
def schemaMapKeys : List String :=
  ["properties", "patternProperties", "definitions", "$defs", "dependentSchemas"]

/-- What the value under a key of an object is. -/
def fieldKind (owner : FrameKind) (key : String) : Json → FrameKind
  | .array _ => .container
  | _ => if owner = .schema && schemaMapKeys.contains key then .container else .schema

/-- What an item of an array is. -/
def itemKind : Json → FrameKind
  | .array _ => .container
  | _ => .schema

/-- A text with a token, or an array that holds one. -/
def isTemplated : Json → Bool
  | .string s => Substitution.hasToken s
  | .array items => items.any fun item => (item.asString?.map Substitution.hasToken).getD false
  | _ => false

/-- The call for a field, if the field is templated. -/
def ofField (c : Context) (key : String) (value : Json) : Discovery :=
  if Directive.templatedKeys.contains key && isTemplated value then ⟨[⟨c, .template key⟩], []⟩
  else none

mutual

/-- The directives in a node with the given context. -/
def inNode (c : Context) : Json → Discovery
  | .array items => inItems c 0 items
  | .object fields => inFields c fields
  | _ => none

def inItems (c : Context) (i : Nat) : List Json → Discovery
  | [] => none
  | v :: vs =>
    (if v.isContainer then inNode (c.push (.index i) (itemKind v) v) v else none) ++
      inItems c (i + 1) vs

def inFields (c : Context) : List (String × Json) → Discovery
  | [] => none
  | (k, v) :: rest =>
    if k = Directive.importKey then ⟨[⟨c, .importing v⟩], []⟩
    else if Directive.looksLike k then
      (if Directive.known.contains k then none else ⟨[], [k]⟩) ++ inFields c rest
    else
      ofField c k v ++
        ((if v.isContainer then inNode (c.push (.key k) (fieldKind c.current.kind k v) v) v
          else none) ++
          inFields c rest)

end

/-- The directives of a document. -/
def ofDocument (document : Json) : Discovery :=
  inNode (.ofRoot document) document

end Discovery

end SchemaLoom
