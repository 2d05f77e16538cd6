import SchemaLoom.Yaml.Scalar
import SchemaLoom.Yaml.Token

/-!
# Anchors, tags and directives

The names behind `&` and `*`, the parts of a tag, and the two directives that may stand before a
document. A tag is a list of bytes: an escape writes a byte, and a zero byte ends the tag.
-/

namespace SchemaLoom.Yaml

/-- The longest run of word characters. -/
def readWord (cells : List Cell) : List Char × List Cell :=
  ((cells.takeWhile fun c => isWord c.char).map Cell.char, cells.dropWhile fun c => isWord c.char)

/-- The name of an anchor. -/
def readAnchor (cells : List Cell) : Option (List Char × List Cell) :=
  let (name, rest) := readWord cells
  if name.isEmpty then none
  else if endsWord rest || nextIn ['?', ':', ',', ']', '}', '%', '@', '`'] rest then
    some (name, rest)
  else none

/-- Characters of a tag besides word characters. -/
def isTagChar (verbatim : Bool) (c : Char) : Bool :=
  isWord c ||
    [';', '/', '?', ':', '@', '&', '=', '+', '$', '.', '%', '!', '~', '*', '\'', '(',
      ')'].contains c ||
    (verbatim && [',', '[', ']'].contains c)

/-- The number of further bytes that a first byte asks for. -/
def bytesAfter? (byte : UInt8) : Option Nat :=
  if byte < 0x80 then some 0
  else if byte / 0x20 = 6 then some 1
  else if byte / 0x10 = 14 then some 2
  else if byte / 0x08 = 30 then some 3
  else none

/-- The byte that a percent sign and two hexadecimal digits stand for. -/
def escapedByte? : List Cell → Option UInt8
  | p :: a :: b :: _ => do
    let high ← hexDigit? a.char
    let low ← hexDigit? b.char
    if p.char = '%' then some (UInt8.ofNat (high * 16 + low)) else none
  | _ => none

/-- The bytes of escapes that continue a character. -/
def continuation? : Nat → List Cell → Option (List UInt8)
  | 0, _ => some []
  | count + 1, cells => do
    let byte ← escapedByte? cells
    if byte / 0x40 = 2 then pure (byte :: (← continuation? count (cells.drop 3))) else none

/-- The bytes of an escaped character. Only their number is checked: they may form a character that
has a shorter form, or none at all. -/
def escapedBytes? (cells : List Cell) : Option (List UInt8) := do
  let first ← escapedByte? cells
  pure (first :: (← continuation? (← bytesAfter? first) (cells.drop 3)))

/-- Characters below 128 as bytes. -/
def asciiBytes (cs : List Char) : List UInt8 := cs.map Char.toUInt8

/-- The byte with which a local tag begins. -/
def localMark : UInt8 := Char.toUInt8 '!'

/-- The tags of the core schema are this and a name. -/
def corePrefix : Tag := asciiBytes "tag:yaml.org,2002:".toList

/-- The bytes of a tag; the first `skip` cells belong to an escape. -/
def readTagBytes (verbatim : Bool) : Nat → List Cell → Option (List UInt8 × List Cell)
  | _, [] => some ([], [])
  | skip + 1, _ :: rest => readTagBytes verbatim skip rest
  | 0, c :: rest =>
    if c.char = '%' then
      match escapedBytes? (c :: rest) with
      | some bytes => prepend bytes (readTagBytes verbatim (3 * bytes.length - 1) rest)
      | none => none
    else if isTagChar verbatim c.char then
      prepend (asciiBytes [c.char]) (readTagBytes verbatim 0 rest)
    else some ([], c :: rest)

/-- The bytes before the first zero byte, which ends a tag. -/
def beforeZero (bytes : List UInt8) : Tag := bytes.takeWhile (· ≠ 0)

/-- A tag handle: `!`, a word and perhaps a closing `!`. -/
def readHandle (cells : List Cell) : Option (List Char × List Cell) :=
  match cells with
  | c :: rest =>
    if c.char ≠ '!' then none
    else
      let (name, rest) := readWord rest
      match rest with
      | d :: rest' =>
        if d.char = '!' then some ('!' :: name ++ ['!'], rest') else some ('!' :: name, rest)
      | [] => some ('!' :: name, [])
  | [] => none

/-- Whether a handle is closed by a second `!`. -/
def isClosedHandle (handle : List Char) : Bool :=
  handle.length > 1 && handle.getLast? == some '!'

/-- A tag as its handle and suffix. The lone `!` has no handle. -/
def readTag (flow : Bool) (cells : List Cell) : Option (List Char × Tag × List Cell) := do
  let (handle, suffix, rest) ←
    if nextIn ['<'] (cells.drop 1) then do
      let (suffix, rest) ← readTagBytes true 0 (cells.drop 2)
      if suffix.isEmpty || !nextIn ['>'] rest then none
      pure ([], beforeZero suffix, rest.drop 1)
    else do
      let (handle, rest) ← readHandle cells
      let (more, rest) ← readTagBytes false 0 rest
      if isClosedHandle handle then
        if more.isEmpty then none
        pure (handle, beforeZero more, rest)
      else
        let suffix := asciiBytes (handle.drop 1) ++ beforeZero more
        pure (if suffix.isEmpty then ([], [localMark], rest) else (['!'], suffix, rest))
  if (flow && nextIn [','] rest) || endsWord rest then pure (handle, suffix, rest) else none

/-- The digits of a version number; ten are too many. -/
def readVersionNumber (cells : List Cell) : Option (Nat × List Cell) :=
  let ds := (cells.takeWhile fun c => c.char.isDigit).map Cell.char
  if ds.isEmpty || ds.length > 9 then none
  else
    some (ds.foldl (fun n c => n * 10 + (c.toNat - 48)) 0, cells.dropWhile fun c => c.char.isDigit)

/-- What a directive behind its `%` announces. -/
inductive Directive where
  | version (major minor : Nat)
  | tagShorthand (handle : List Char) (expansion : Tag)

/-- A directive behind its `%`, with its line. -/
def readDirective (cells : List Cell) : Option (Directive × List Cell) := do
  let (name, rest) := readWord cells
  if name.isEmpty || !endsWord rest then none
  let (directive, rest) ←
    if name = ['Y', 'A', 'M', 'L'] then do
      let (major, rest) ← readVersionNumber (skipWhite rest)
      if !nextIn ['.'] rest then none
      let (minor, rest) ← readVersionNumber (rest.drop 1)
      pure (Directive.version major minor, rest)
    else if name = ['T', 'A', 'G'] then do
      let (handle, rest) ← readHandle (skipWhite rest)
      if !(handle.getLast? == some '!') then none
      if rest.isEmpty || !(rest.head?.any fun c => isWhite c.char) then none
      let (expansion, rest) ← readTagBytes true 0 (skipWhite rest)
      if expansion.isEmpty || !endsWord rest then none
      pure (Directive.tagShorthand handle (beforeZero expansion), rest)
    else none
  let rest ← finishLine rest
  pure (directive, rest)

end SchemaLoom.Yaml
