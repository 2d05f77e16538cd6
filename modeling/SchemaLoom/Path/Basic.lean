import SchemaLoom.Text.Search

/-!
# Paths

A path is its text; its meaning is its list of components. Two paths name the same place when their
components agree: `.` and repeated or final slashes add none, except that a relative path may begin
with `.`.

Cutting a path (its parent, the part below another path) keeps the text of what remains, without
blank components at the cut. Building a path (joining, changing the extension) works on the text.
-/

namespace SchemaLoom

structure Path where
  text : String
deriving DecidableEq, Repr, Inhabited

namespace Path

inductive Component where
  | root
  | here
  | up
  | name (text : String)
deriving DecidableEq, Repr

def ofChars (cs : List Char) : Path := ⟨String.ofList cs⟩

def chars (p : Path) : List Char := p.text.toList

/-- The pieces between the slashes. -/
def pieces (p : Path) : List (List Char) :=
  Text.splitOn '/' p.chars

def isAbsolute (p : Path) : Bool :=
  p.chars.head? == some '/'

/-- A piece that stands for no component. -/
def isVoid (piece : List Char) : Bool :=
  piece.isEmpty || piece == ['.']

/-- What a piece stands for inside a path. -/
def Component.ofPiece? (piece : List Char) : Option Component :=
  if isVoid piece then none
  else if piece = ['.', '.'] then some .up
  else some (.name (String.ofList piece))

/-- The text of a path before its ordinary pieces, and those pieces: the root of an absolute path
and the leading `.` of a relative one are set apart. -/
def split (p : Path) : Option Component × List (List Char) :=
  match p.pieces with
  | piece :: rest =>
    if p.isAbsolute then (some .root, rest)
    else if piece = ['.'] then (some .here, rest)
    else (none, piece :: rest)
  | [] => (none, [])

def components (p : Path) : List Component :=
  p.split.1.toList ++ p.split.2.filterMap Component.ofPiece?

/-- Whether two paths name the same place. -/
def same (p q : Path) : Bool :=
  p.components == q.components

/-- Joins a beginning set apart by `split` and the pieces behind it. -/
def unsplit : Option Component → List (List Char) → Path
  | some .root, pieces => ofChars ('/' :: Text.joinWith ['/'] pieces)
  | some _, [] => ofChars ['.']
  | some _, pieces => ofChars ('.' :: '/' :: Text.joinWith ['/'] pieces)
  | none, pieces => ofChars (Text.joinWith ['/'] pieces)

/-- Pieces without the void ones at their end. -/
def dropVoidEnd (pieces : List (List Char)) : List (List Char) :=
  (pieces.reverse.dropWhile isVoid).reverse

/-- The path without its last component; the root and the empty path have no parent. -/
def parent? (p : Path) : Option Path :=
  match dropVoidEnd p.split.2 with
  | [] => if p.split.1 = some .here then some (ofChars []) else none
  | piece :: pieces => some (unsplit p.split.1 (dropVoidEnd (piece :: pieces).dropLast))

/-- The last component, if it is a name. -/
def fileName? (p : Path) : Option String :=
  match p.components.getLast? with
  | some (.name s) => some s
  | _ => none

/-- A file name cut at its last dot. A name has no extension when it has no dot or only a leading
one. -/
def cutName (name : List Char) : List Char × Option (List Char) :=
  let extension := (name.reverse.takeWhile (· ≠ '.')).reverse
  if extension.length = name.length then (name, none)
  else
    let stem := name.take (name.length - extension.length - 1)
    if stem.isEmpty then (name, none) else (stem, some extension)

/-- The file name without its extension. -/
def stem? (p : Path) : Option String :=
  p.fileName?.map fun name => String.ofList (cutName name.toList).1

def extension? (p : Path) : Option String :=
  p.fileName?.bind fun name => (cutName name.toList).2.map String.ofList

/-- The text behind the last component: slashes and `.` that add none. -/
def tailLength (p : Path) : Nat :=
  match dropVoidEnd p.split.2 with
  | [] => 0
  | pieces => p.chars.length - (unsplit p.split.1 pieces).chars.length

/-- Changes the extension of the file name, or removes it when the new one is empty. A path
without a file name stays as it is. The name `..x` without its extension is `..`, which is no file
name any more; where it ends the path, nothing is put behind it. -/
def withExtension (p : Path) (extension : String) : Path :=
  match p.fileName? with
  | none => p
  | some name =>
    let upToName := p.chars.take (p.chars.length - p.tailLength)
    let stem := (cutName name.toList).1
    let kept := upToName.take (upToName.length - (name.toList.length - stem.length))
    if stem = ['.'] && p.tailLength = 0 then ofChars (kept ++ ['.'])
    else ofChars (kept ++ if extension.toList.isEmpty then [] else '.' :: extension.toList)

/-- A path below another one. An absolute second path replaces the first. -/
def join (p q : Path) : Path :=
  if q.isAbsolute then q
  else if p.chars.isEmpty || p.chars.getLast? = some '/' then ofChars (p.chars ++ q.chars)
  else ofChars (p.chars ++ '/' :: q.chars)

def Component.path : Component → Path
  | .root => ofChars ['/']
  | .here => ofChars ['.']
  | .up => ofChars ['.', '.']
  | .name s => ⟨s⟩

/-- The path that the components make up when they are joined one after the other. -/
def ofComponents (components : List Component) : Path :=
  components.foldl (fun p c => p.join c.path) (ofChars [])

/-- Whether the components of a path begin with those of another. -/
def startsWith (p base : Path) : Bool :=
  base.components.isPrefixOf p.components

/-- Pieces behind the first `n` components, without void ones at either end. -/
def dropNames : Nat → List (List Char) → List (List Char)
  | _, [] => []
  | 0, piece :: pieces =>
    if isVoid piece then dropNames 0 pieces else dropVoidEnd (piece :: pieces)
  | n + 1, piece :: pieces =>
    if isVoid piece then dropNames (n + 1) pieces else dropNames n pieces

/-- The part of a path below another one, as it is written in the path. -/
def below? (p base : Path) : Option Path :=
  if p.startsWith base then
    match base.components.length, p.split with
    | 0, (first, pieces) => some (unsplit first (dropVoidEnd pieces))
    | n + 1, (some _, pieces) => some (unsplit none (dropNames n pieces))
    | n + 1, (none, pieces) => some (unsplit none (dropNames (n + 1) pieces))
  else none

/-- The order of component lists: by the first component that differs, the root before `.` before
`..` before names, and names by their characters. -/
def Component.rank : Component → Nat
  | .root => 0
  | .here => 1
  | .up => 2
  | .name _ => 3

def Component.before (a b : Component) : Bool :=
  match a, b with
  | .name s, .name t => s < t
  | a, b => a.rank < b.rank

def componentsBefore : List Component → List Component → Bool
  | [], [] => false
  | [], _ :: _ => true
  | _ :: _, [] => false
  | a :: as, b :: bs => if a = b then componentsBefore as bs else a.before b

/-- Whether a path comes no later than another one. -/
def noLater (p q : Path) : Bool :=
  !componentsBefore q.components p.components

/-- Paths in component order; paths that name the same place keep their order. -/
def sort (paths : List Path) : List Path :=
  paths.mergeSort noLater

/-- The text of a path with every backslash turned into a slash. -/
def clean (p : Path) : String :=
  String.ofList (p.chars.map fun c => if c = '\\' then '/' else c)

end Path

end SchemaLoom
