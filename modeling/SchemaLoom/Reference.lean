import SchemaLoom.Layout
import SchemaLoom.Text.Blank

/-!
# Reference tokens

`ref(namespace:path)`, with an optional `$` before it, names another template: the namespace has
no parentheses, colons or blanks, the path no parentheses or blanks and at least one character.
The path may end in a fragment behind `#`.
-/

namespace SchemaLoom

structure Reference where
  nameSpace : List Char
  path : List Char
deriving DecidableEq, Repr

namespace Reference

def isNameSpaceChar (c : Char) : Bool :=
  !(c == '(' || c == ')' || c == ':' || Text.isBlank c)

def isPathChar (c : Char) : Bool :=
  !(c == '(' || c == ')' || Text.isBlank c)

/-- The text of a reference. -/
def text (r : Reference) : List Char :=
  ['r', 'e', 'f', '('] ++ r.nameSpace ++ ':' :: r.path ++ [')']

/-- What stands between the parentheses. -/
def inner (r : Reference) : List Char := r.nameSpace ++ ':' :: r.path

/-- A reference behind its opening parenthesis, and the rest of the text. -/
def readInner (cs : List Char) : Option (Reference × List Char) :=
  match cs.dropWhile isNameSpaceChar with
  | ':' :: rest =>
    let path := rest.takeWhile isPathChar
    match rest.dropWhile isPathChar with
    | ')' :: rest =>
      if path.isEmpty then none else some (⟨cs.takeWhile isNameSpaceChar, path⟩, rest)
    | _ => none
  | _ => none

/-- The reference with which a text begins, and the rest of the text. -/
def readToken : List Char → Option (Reference × List Char)
  | '$' :: 'r' :: 'e' :: 'f' :: '(' :: rest => readInner rest
  | 'r' :: 'e' :: 'f' :: '(' :: rest => readInner rest
  | _ => none

/-- A piece of a text: a character that belongs to no reference, or a reference. -/
inductive Piece where
  | char (c : Char)
  | reference (r : Reference)
deriving Repr

/-- The pieces of a text from left to right; the first `skip` characters belong to the reference
before them. -/
def piecesFrom : Nat → List Char → List Piece
  | _, [] => []
  | skip + 1, _ :: cs => piecesFrom skip cs
  | 0, c :: cs =>
    match readToken (c :: cs) with
    | some (r, rest) => .reference r :: piecesFrom (cs.length - rest.length) cs
    | none => .char c :: piecesFrom 0 cs

def pieces (cs : List Char) : List Piece := piecesFrom 0 cs

/-- The reference that a text is as a whole. The first reference in the text must begin and end with
it. -/
def parse? (text : String) : Option Reference :=
  match readToken text.toList with
  | some (r, []) => some r
  | _ => none

/-- The path without its fragment, and the fragment. -/
def splitFragment (r : Reference) : List Char × Option (List Char) :=
  Text.splitOnce '#' r.path

/-- The place below the source root that a reference without fragment names. -/
def relativePath (nameSpace path : List Char) : Path :=
  (Path.ofChars nameSpace).join (Path.ofChars path)

/-- The reference to a template: its directory as the namespace, its name without extension as the
path. A file outside the source root has none. -/
def ofFile? (l : Layout) (file : Path) : Option Reference :=
  match l.sourceRelative? file with
  | none => none
  | some relative =>
    match relative.stem? with
    | none => none
    | some stem =>
      match relative.parent? with
      | some parent =>
        if parent.chars.isEmpty then some ⟨[], stem.toList⟩
        else some ⟨parent.clean.toList, stem.toList⟩
      | none => some ⟨[], stem.toList⟩

end Reference

end SchemaLoom
