import SchemaLoom.Path.Basic
import SchemaLoom.Toml.Reader

/-!
# Configurations

A configuration says where templates, outputs, the registry and the documentation are and how to
build and watch. Its file is a TOML table of four sections. Every key may be missing and takes its
default; a key that no section has is an error. An array in the place of a section gives the
values of its keys in their order.
-/

namespace SchemaLoom

structure Configuration where
  /-- The file it was read from, once it is known. -/
  file : Path
  root : Option Path
  source : Path
  output : Path
  /-- Whether the first build removes the output tree. -/
  cleans : Bool
  isPretty : Bool
  /-- The milliseconds between two looks at the queues. -/
  interval : Nat
  /-- The milliseconds without an event before the queues are looked at. -/
  debounce : Nat
  registry : Option Path
  docsRoot : Option Path
  docsBaseUrl : Option String
deriving DecidableEq, Repr

namespace Configuration

def standard : Configuration where
  file := ⟨""⟩
  root := none
  source := ⟨"src/schemas"⟩
  output := ⟨"schemas"⟩
  cleans := false
  isPretty := true
  interval := 250
  debounce := 50
  registry := none
  docsRoot := none
  docsBaseUrl := none

/-- The working directory, as it is written where no root is given. -/
def workingDirectory : Path := ⟨"./"⟩

def rootPath (c : Configuration) : Path := c.root.getD workingDirectory

/-- What a key sets. -/
inductive Setting where
  | root
  | source
  | output
  | cleans
  | isPretty
  | interval
  | debounce
  | registry
  | docsRoot
  | docsBaseUrl
deriving DecidableEq, Repr

/-- The sections and their keys in order. -/
def sections : List (String × List (String × Setting)) :=
  [("build", [("root", .root), ("src", .source), ("out", .output), ("clean", .cleans),
      ("pretty", .isPretty)]),
    ("watch", [("interval_ms", .interval), ("debounce_ms", .debounce)]),
    ("registry", [("path", .registry)]),
    ("docs", [("root", .docsRoot), ("base_url", .docsBaseUrl)])]

/-- Sets a value; nothing when it is not of the setting's type. -/
def set (c : Configuration) : Setting → Toml.Value → Option Configuration
  | .root, .string s => some { c with root := some ⟨s⟩ }
  | .source, .string s => some { c with source := ⟨s⟩ }
  | .output, .string s => some { c with output := ⟨s⟩ }
  | .cleans, .boolean b => some { c with cleans := b }
  | .isPretty, .boolean b => some { c with isPretty := b }
  | .interval, .integer (.ofNat n) => some { c with interval := n }
  | .debounce, .integer (.ofNat n) => some { c with debounce := n }
  | .registry, .string s => some { c with registry := some ⟨s⟩ }
  | .docsRoot, .string s => some { c with docsRoot := some ⟨s⟩ }
  | .docsBaseUrl, .string s => some { c with docsBaseUrl := some s }
  | _, _ => none

/-- Sets the entries of a section. -/
def setEntries (keys : List (String × Setting)) :
    Configuration → Toml.Entries → Option Configuration
  | c, [] => some c
  | c, (key, v) :: rest =>
    match Ordered.get? key keys with
    | none => none
    | some setting =>
      match c.set setting v with
      | none => none
      | some c => setEntries keys c rest

/-- Sets the keys of a section to values, in order; values without a key are not looked at. -/
def setItems : Configuration → List (String × Setting) → List Toml.Value → Option Configuration
  | c, (_, setting) :: keys, v :: items =>
    match c.set setting v with
    | none => none
    | some c => setItems c keys items
  | c, _, _ => some c

def setSection (c : Configuration) (keys : List (String × Setting)) :
    Toml.Value → Option Configuration
  | .table _ entries => setEntries keys c entries
  | .array items => setItems c keys items
  | _ => none

/-- Sets the sections of a file. -/
def setSections : Configuration → Toml.Entries → Option Configuration
  | c, [] => some c
  | c, (name, v) :: rest =>
    match Ordered.get? name sections with
    | none => none
    | some keys =>
      match c.setSection keys v with
      | none => none
      | some c => setSections c rest

/-- The configuration that a text holds. -/
def parse (text : String) : Option Configuration :=
  match Toml.parse text with
  | some entries => setSections standard entries
  | none => none

end Configuration

end SchemaLoom
