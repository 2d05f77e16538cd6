/-!
# Blank characters and trimming

A blank is a character with the Unicode property White_Space. Trimming removes blanks at the ends of
a text and nothing else.
-/

namespace SchemaLoom.Text

/-- The characters with the Unicode property White_Space. -/
def isBlank (c : Char) : Bool :=
  let n := c.toNat
  (0x09 ≤ n && n ≤ 0x0D) || n == 0x20 || n == 0x85 || n == 0xA0 || n == 0x1680 ||
    (0x2000 ≤ n && n ≤ 0x200A) || n == 0x2028 || n == 0x2029 || n == 0x202F || n == 0x205F ||
    n == 0x3000

/-- A text without the characters at its end that satisfy `p`. -/
def dropWhileEnd (p : Char → Bool) (cs : List Char) : List Char :=
  (cs.reverse.dropWhile p).reverse

def trimStart (cs : List Char) : List Char :=
  cs.dropWhile isBlank

def trimEnd (cs : List Char) : List Char :=
  dropWhileEnd isBlank cs

def trim (cs : List Char) : List Char :=
  trimEnd (trimStart cs)

/-- A text without the characters at either end that satisfy `p`. -/
def trimBoth (p : Char → Bool) (cs : List Char) : List Char :=
  dropWhileEnd p (cs.dropWhile p)

end SchemaLoom.Text
