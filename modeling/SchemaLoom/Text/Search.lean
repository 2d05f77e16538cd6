/-!
# Finding, splitting and replacing

Plain text search on character lists. A replacement scans from left to right and goes on behind each
match, so inserted text is never searched again.
-/

namespace SchemaLoom.Text

/-- Whether `needle` occurs anywhere in the text. -/
def occursIn (needle : List Char) : List Char → Bool
  | [] => needle.isEmpty
  | c :: cs => needle.isPrefixOf (c :: cs) || occursIn needle cs

/-- The text behind `start`, if it begins with it. -/
def afterStart? : List Char → List Char → Option (List Char)
  | [], cs => some cs
  | _ :: _, [] => none
  | a :: start, c :: cs => if a = c then afterStart? start cs else none

/-- Replaces the matches of `needle` from left to right; the first `skip` characters belong to the
match before them. -/
def replaceFrom (needle replacement : List Char) : Nat → List Char → List Char
  | _, [] => []
  | skip + 1, _ :: cs => replaceFrom needle replacement skip cs
  | 0, c :: cs =>
    if needle.isPrefixOf (c :: cs) then
      replacement ++ replaceFrom needle replacement (needle.length - 1) cs
    else c :: replaceFrom needle replacement 0 cs

/-- Replaces every match of a non-empty `needle`. -/
def replaceAll (needle replacement : List Char) (cs : List Char) : List Char :=
  replaceFrom needle replacement 0 cs

/-- The pieces between the separators; a text without a separator is one piece. -/
def splitOn (separator : Char) : List Char → List (List Char)
  | [] => [[]]
  | c :: cs =>
    if c = separator then [] :: splitOn separator cs
    else match splitOn separator cs with
      | [] => [[c]]
      | piece :: pieces => (c :: piece) :: pieces

/-- The pieces with a separator between each two. -/
def joinWith (separator : List Char) : List (List Char) → List Char
  | [] => []
  | [piece] => piece
  | piece :: next :: pieces => piece ++ separator ++ joinWith separator (next :: pieces)

/-- The text before the first separator and the text behind it, if there is one. -/
def splitOnce (separator : Char) : List Char → List Char × Option (List Char)
  | [] => ([], none)
  | c :: cs =>
    if c = separator then ([], some cs)
    else match splitOnce separator cs with
      | (head, tail) => (c :: head, tail)

/-- The lines of a text. A final line break ends the last line and opens no new one. -/
def lines (cs : List Char) : List (List Char) :=
  let pieces := splitOn '\n' cs
  if pieces.getLast? = some [] then pieces.dropLast else pieces

/-- The longest beginning of at most `limit` UTF-8 bytes that cuts no character. -/
def takeBytes : Nat → List Char → List Char
  | _, [] => []
  | limit, c :: cs => if c.utf8Size ≤ limit then c :: takeBytes (limit - c.utf8Size) cs else []

end SchemaLoom.Text
