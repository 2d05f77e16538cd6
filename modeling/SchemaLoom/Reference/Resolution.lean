import SchemaLoom.Diagnostic
import SchemaLoom.Directive
import SchemaLoom.FileSystem
import SchemaLoom.Reference

/-!
# Resolving references

When a document is written, a reference becomes the path from its output to the output of the
template that it names. A reference that is only a fragment becomes the fragment. One that names
no template becomes its inner text and is missing: it is reported, unless it is the first missing
one below the innermost object that permits one.
-/

namespace SchemaLoom

/-- The template file below the source root that a path without extension names. -/
def FileSystem.findSource? (fs : FileSystem) (l : Layout) (relative : Path) : Option Path :=
  (l.candidates relative).find? fs.isFile

/-- The document whose references are resolved, by its source, and where to look for others. -/
structure Resolver where
  layout : Layout
  files : FileSystem
  source : Path

namespace Resolver

/-- The text that takes the place of a reference, if it is not missing. -/
def replacement? (r : Resolver) (ref : Reference) : Option (List Char) :=
  match ref.splitFragment with
  | ([], some _) => some ref.path
  | (path, fragment) =>
    (r.files.findSource? r.layout (Reference.relativePath ref.nameSpace path)).map fun target =>
      (r.layout.outputReference r.source target).toList ++
        match fragment with
        | some f => '#' :: f
        | none => []

def resolvePiece (r : Resolver) : Reference.Piece → List Char
  | .char c => [c]
  | .reference ref => (r.replacement? ref).getD ref.inner

/-- A text with its references resolved. -/
def resolveText (r : Resolver) (s : String) : String :=
  String.ofList ((Reference.pieces s.toList).flatMap r.resolvePiece)

/-- The missing references of a text, from left to right. -/
def missingIn (r : Resolver) (s : String) : List Reference :=
  (Reference.pieces s.toList).filterMap fun piece =>
    match piece with
    | .char _ => none
    | .reference ref => if (r.replacement? ref).isNone then some ref else none

mutual

/-- A document with its references resolved and without permissions. -/
def resolveNode (r : Resolver) : Json → Json
  | .string s => .string (r.resolveText s)
  | .array items => .array (resolveItems r items)
  | .object fields => .object (resolveFields r fields)
  | v => v

def resolveItems (r : Resolver) : List Json → List Json
  | [] => []
  | v :: vs => resolveNode r v :: resolveItems r vs

def resolveFields (r : Resolver) : List (String × Json) → List (String × Json)
  | [] => []
  | (k, v) :: rest =>
    if k = Directive.noRefCheckKey then resolveFields r rest
    else (k, resolveNode r v) :: resolveFields r rest

end

/-- Whether an object permits one missing reference below it. -/
def permits (fields : Json.Fields) : Bool :=
  match Ordered.get? Directive.noRefCheckKey fields with
  | none | some (.bool false) => false
  | some _ => true

/-- What is left of a permission after some missing references, and those that are reported. -/
def spend (permitted : Bool) (missing : List Reference) : Bool × List Reference :=
  if permitted then (missing.isEmpty, missing.drop 1) else (false, missing)

mutual

/-- What is left of a permission after a node, and the references reported in it. -/
def reportNode (r : Resolver) (permitted : Bool) : Json → Bool × List Reference
  | .string s => spend permitted (r.missingIn s)
  | .array items => reportItems r permitted items
  | .object fields =>
    if permits fields then (permitted, (reportFields r true fields).2)
    else reportFields r permitted fields
  | _ => (permitted, [])

def reportItems (r : Resolver) (permitted : Bool) : List Json → Bool × List Reference
  | [] => (permitted, [])
  | v :: vs =>
    let (permitted, reported) := reportNode r permitted v
    let (permitted, more) := reportItems r permitted vs
    (permitted, reported ++ more)

def reportFields (r : Resolver) (permitted : Bool) : List (String × Json) → Bool × List Reference
  | [] => (permitted, [])
  | (k, v) :: rest =>
    if k = Directive.noRefCheckKey then reportFields r permitted rest
    else
      let (permitted, reported) := reportNode r permitted v
      let (permitted, more) := reportFields r permitted rest
      (permitted, reported ++ more)

end

/-- The diagnostic for a missing reference in a document. -/
def diagnostic (id : String) (ref : Reference) : Diagnostic :=
  let text := String.ofList ref.text
  ⟨.missingReference, id, s!"unknown schema {text} referenced"⟩

/-- The references that a document reports. -/
def reported (r : Resolver) (document : Json) : List Reference :=
  (reportNode r false document).2

/-- The document to be written and what is reported about it. -/
def resolve (r : Resolver) (id : String) (document : Json) : Json × List Diagnostic :=
  (resolveNode r document, (r.reported document).map (diagnostic id))

end Resolver

end SchemaLoom
