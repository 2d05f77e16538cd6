import SchemaLoom.Location

/-!
# The context of a directive

A directive sees the layer that holds it and everything around that layer: the way from the root,
and on it the title and descriptions of every enclosing schema. A context is taken from the
document as it was read; only the way is kept in step when arrays on it change.
-/

namespace SchemaLoom

/-- A schema carries annotations. An array, and an object that maps names to schemas, is a container
of schemas and carries none. -/
inductive FrameKind where
  | schema
  | container
deriving DecidableEq, Repr

inductive Annotation where
  | title
  | description
  | markdownDescription
deriving DecidableEq, Repr

namespace Annotation

def key : Annotation → String
  | .title => "title"
  | .description => "description"
  | .markdownDescription => "markdownDescription"

def all : List Annotation := [.title, .description, .markdownDescription]

end Annotation

/-- A node on the way to a layer. -/
structure Frame where
  kind : FrameKind
  isArray : Bool
  title : Option String
  description : Option String
  markdownDescription : Option String
deriving DecidableEq, Repr

namespace Frame

/-- The text of a node under an annotation's key. -/
def captured (kind : FrameKind) (node : Json) (a : Annotation) : Option String :=
  match kind with
  | .schema => node.getString? a.key
  | .container => none

def ofNode (kind : FrameKind) (node : Json) : Frame where
  kind := kind
  isArray := match node with
    | .array _ => true
    | _ => false
  title := captured kind node .title
  description := captured kind node .description
  markdownDescription := captured kind node .markdownDescription

/-- An annotation that is not empty. -/
def annotation? (f : Frame) (a : Annotation) : Option String :=
  (match a with
    | .title => f.title
    | .description => f.description
    | .markdownDescription => f.markdownDescription).filter fun s => s ≠ ""

end Frame

/-- A step on the way to a layer and the node it leads to. -/
structure Step where
  segment : Segment
  frame : Frame
deriving DecidableEq, Repr

structure Context where
  root : Frame
  steps : List Step
deriving DecidableEq, Repr

namespace Context

/-- The context of a document's root, which is a schema. -/
def ofRoot (document : Json) : Context := ⟨.ofNode .schema document, []⟩

def push (c : Context) (segment : Segment) (kind : FrameKind) (node : Json) : Context :=
  { c with steps := c.steps ++ [⟨segment, .ofNode kind node⟩] }

/-- All nodes on the way, the root first. -/
def frames (c : Context) : List Frame := c.root :: c.steps.map Step.frame

/-- The layer itself. -/
def current (c : Context) : Frame := (c.frames.getLast?).getD c.root

def location (c : Context) : Location := c.steps.map Step.segment

/-- The annotation of the innermost schema around the layer that has one. -/
def nearestAncestor (c : Context) (a : Annotation) : Option String :=
  (c.frames.dropLast.reverse.filter fun f => f.kind = .schema).findSome? fun f => f.annotation? a

/-- Like `nearestAncestor`; if no schema around it has one, the layer's own. -/
def nearest (c : Context) (a : Annotation) : Option String :=
  (c.nearestAncestor a).or (c.current.annotation? a)

/-- The array that holds the layer, and the layer's position in it. -/
def arraySlot? (c : Context) : Option (Location × Nat) :=
  match c.steps.getLast?, c.frames.dropLast.getLast? with
  | some ⟨.index i, _⟩, some parent =>
    if parent.isArray then some (c.location.dropLast, i) else none
  | _, _ => none

/-- Moves the way behind an array's location to where the splice put the element. -/
def shiftSteps (s : Splice) : Location → List Step → List Step
  | _, [] => []
  | [], step :: rest =>
    match step.segment with
    | .index j => { step with segment := .index (s.shiftIndex j) } :: rest
    | .key _ => step :: rest
  | segment :: array, step :: rest =>
    if step.segment = segment then step :: shiftSteps s array rest else step :: rest

/-- The context after an array was spliced. -/
def shiftAfter (c : Context) (s : Splice) : Context :=
  { c with steps := shiftSteps s s.array c.steps }

end Context

end SchemaLoom
