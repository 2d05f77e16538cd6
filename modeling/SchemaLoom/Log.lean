import SchemaLoom.Text.Search

/-!
# The log

A line names the part of the program that speaks. A message of one line is cut to the width of the
terminal, at a character; a message with line breaks is written as it is.
-/

namespace SchemaLoom.Log

structure Line where
  part : String
  message : String
deriving DecidableEq, Repr

/-- The columns of a terminal. -/
def terminalWidth : Nat := 120

/-- The columns that the part and its brackets take. -/
def leadWidth (part : String) : Nat := part.utf8ByteSize + 3

namespace Line

/-- The message as it is written. -/
def shown (l : Line) : List Char :=
  let message := l.message.toList
  if message.contains '\n' then message
  else Text.takeBytes (terminalWidth - leadWidth l.part) message

def text (l : Line) : String :=
  let message := String.ofList l.shown
  s!"[{l.part}] {message}"

end Line

end SchemaLoom.Log
