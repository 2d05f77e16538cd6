import SchemaLoom.Path.Basic

/-!
# The command line

Options take a value, behind an equals sign, as the next argument, or directly behind a short
name; flags take none. Everything is given at most once, and there are no other arguments. `--`
ends the options. An option whose value is the next argument is complete only when the next known
option comes or the arguments end, so an unknown argument is refused before one that lacks its
value.
-/

namespace SchemaLoom.CommandLine

structure Options where
  root : Option Path
  configuration : Path
  source : Option Path
  output : Option Path
  registry : Option Path
  docs : Option Path
  cleans : Bool
  /-- Whether the program ends after the first build. -/
  once : Bool
deriving DecidableEq, Repr

def Options.none : Options where
  root := .none
  configuration := ⟨"schemac.toml"⟩
  source := .none
  output := .none
  registry := .none
  docs := .none
  cleans := false
  once := false

/-- What takes a value. -/
inductive Parameter where
  | root
  | configuration
  | source
  | output
  | registry
  | docs
deriving DecidableEq, Repr

inductive Flag where
  | clean
  | once
deriving DecidableEq, Repr

/-- What a name on the command line means. -/
inductive Meaning where
  | parameter (p : Parameter)
  | flag (f : Flag)
  | help
  | version
deriving DecidableEq, Repr

def longNames : List (String × Meaning) :=
  [("root", .parameter .root), ("config", .parameter .configuration), ("src", .parameter .source),
    ("out", .parameter .output), ("registry", .parameter .registry), ("docs", .parameter .docs),
    ("clean", .flag .clean), ("once", .flag .once), ("help", .help), ("version", .version)]

def shortNames : List (Char × Meaning) :=
  [('r', .parameter .root), ('C', .parameter .configuration), ('s', .parameter .source),
    ('o', .parameter .output), ('h', .help), ('V', .version)]

/-- Why arguments are refused. -/
inductive Refusal where
  | unknownArgument (argument : String)
  /-- The value is missing or empty. -/
  | missingValue (parameter : Parameter)
  | repeatedParameter (parameter : Parameter)
  | repeatedFlag (flag : Flag)
  /-- A value for something that takes none. -/
  | unexpectedValue (argument : String)
deriving DecidableEq, Repr

/-- Why arguments do not lead to options. -/
inductive Stop where
  | help
  | version
  | refused (refusal : Refusal)
deriving DecidableEq, Repr

/-- What the arguments read so far gave. -/
structure Reading where
  values : List (Parameter × String)
  flags : List Flag
  /-- The last option whose value is the argument behind it, and that argument once it is read. -/
  pending : Option (Parameter × Option String)
  /-- Whether `--` was read. -/
  isOver : Bool
deriving Repr

namespace Reading

def start : Reading := ⟨[], [], none, false⟩

def hasValue (r : Reading) (p : Parameter) : Bool := r.values.any fun v => v.1 = p

/-- Gives a parameter its value. -/
def give (r : Reading) (p : Parameter) (value : String) : Except Stop Reading :=
  if r.hasValue p then .error (.refused (.repeatedParameter p))
  else if value = "" then .error (.refused (.missingValue p))
  else .ok { r with values := r.values ++ [(p, value)] }

/-- Completes the pending option. -/
def settle (r : Reading) : Except Stop Reading :=
  match r.pending with
  | none => .ok r
  | some (p, none) => .error (.refused (.missingValue p))
  | some (p, some value) => { r with pending := none }.give p value

def setFlag (r : Reading) (f : Flag) : Except Stop Reading :=
  if r.flags.contains f then .error (.refused (.repeatedFlag f))
  else .ok { r with flags := r.flags ++ [f] }

/-- Reads a parameter with the value that is attached to it, if there is one. -/
def readParameter (r : Reading) (p : Parameter) (attached : Option String) : Except Stop Reading :=
  match r.settle with
  | .error stop => .error stop
  | .ok r =>
    match attached with
    | some value => r.give p value
    | none => .ok { r with pending := some (p, none) }

/-- Carries out what a name means that takes no value. -/
def carryOut (r : Reading) (m : Meaning) : Except Stop Reading :=
  match r.settle with
  | .error stop => .error stop
  | .ok r =>
    match m with
    | .help => .error .help
    | .version => .error .version
    | .flag f => r.setFlag f
    | .parameter _ => .ok r

/-- Reads an argument that begins with two dashes; `body` is what follows them. -/
def readLong (r : Reading) (argument : String) (body : List Char) : Except Stop Reading :=
  let name := String.ofList (body.takeWhile (· ≠ '='))
  let attached := match body.dropWhile (· ≠ '=') with
    | _ :: value => some (String.ofList value)
    | [] => none
  match longNames.lookup name with
  | none => .error (.refused (.unknownArgument argument))
  | some (.parameter p) => r.readParameter p attached
  | some m =>
    match attached with
    | some _ => .error (.refused (.unexpectedValue argument))
    | none => r.carryOut m

/-- The value that stands directly behind a short name, with or without an equals sign. -/
def attachedShort : List Char → Option String
  | [] => none
  | '=' :: value => some (String.ofList value)
  | value => some (String.ofList value)

/-- Reads short names that stand behind one dash. -/
def readShort (argument : String) : Reading → List Char → Except Stop Reading
  | r, [] => .ok r
  | r, c :: rest =>
    match shortNames.lookup c with
    | none => .error (.refused (.unknownArgument argument))
    | some (.parameter p) => r.readParameter p (attachedShort rest)
    | some m =>
      match r.carryOut m with
      | .error stop => .error stop
      | .ok r => readShort argument r rest

/-- Reads an argument that is no option: the value of the pending one. -/
def readPlain (r : Reading) (argument : String) : Except Stop Reading :=
  match r.pending with
  | some (p, none) => .ok { r with pending := some (p, some argument) }
  | _ => .error (.refused (.unknownArgument argument))

def readArgument (r : Reading) (argument : String) : Except Stop Reading :=
  if r.isOver then .error (.refused (.unknownArgument argument))
  else match argument.toList with
    | ['-', '-'] => .ok { r with isOver := true }
    | '-' :: '-' :: body => r.readLong argument body
    | '-' :: c :: rest => readShort argument r (c :: rest)
    | _ => r.readPlain argument

def readAll : Reading → List String → Except Stop Reading
  | r, [] => r.settle
  | r, argument :: rest =>
    match r.readArgument argument with
    | .error stop => .error stop
    | .ok r => readAll r rest

def path? (r : Reading) (p : Parameter) : Option Path := (r.values.lookup p).map Path.mk

def options (r : Reading) : Options where
  root := r.path? .root
  configuration := (r.path? .configuration).getD Options.none.configuration
  source := r.path? .source
  output := r.path? .output
  registry := r.path? .registry
  docs := r.path? .docs
  cleans := r.flags.contains .clean
  once := r.flags.contains .once

end Reading

/-- The options that the arguments give. -/
def parse (arguments : List String) : Except Stop Options :=
  match Reading.start.readAll arguments with
  | .error stop => .error stop
  | .ok r => .ok r.options

end SchemaLoom.CommandLine
