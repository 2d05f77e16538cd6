import SchemaLoom.CommandLine
import SchemaLoom.Configuration.Basic
import SchemaLoom.FileSystem

/-!
# Loading a configuration

The file is read if it exists, options of the command line replace what it says, every path is taken
from the root and made absolute, and the trees are checked: the source tree exists, and the output
tree neither is nor contains it.
-/

namespace SchemaLoom

inductive ConfigurationError where
  | unreadable (file : Path) (cause : FileError)
  | malformed
  | sourceMissing (source : Path)
  | sourceNotDirectory
  | outputAroundSource
  | registryMissing (registry : Path)
  | docsNotDirectory (docs : Path)
deriving DecidableEq, Repr

namespace ConfigurationError

/-- What is wrong with the trees of a configuration. -/
def invalid (reason : String) : String := s!"config validation error: {reason}"

def message : ConfigurationError → String
  | .unreadable file _ => s!"failed to read config `{file.text}`"
  | .malformed => "invalid schemac.toml"
  | .sourceMissing source => invalid s!"[build.src] `{source.text}` not found"
  | .sourceNotDirectory => invalid "[build.src] is not a directory"
  | .outputAroundSource => invalid "[build.out] must not be or contain [build.src]"
  | .registryMissing registry => invalid s!"[registry.path] `{registry.text}` not found"
  | .docsNotDirectory docs => invalid s!"[docs.root] `{docs.text}` is not a directory"

/-- The text of the cause, if there is one. -/
def causes : ConfigurationError → List String
  | .unreadable _ cause => [cause.message]
  | _ => []

end ConfigurationError

namespace Configuration

open CommandLine (Options)

/-- The configuration that a file holds. -/
def read (files : FileSystem) (file : Path) : Except ConfigurationError Configuration :=
  match files.readText file with
  | .error cause => .error (.unreadable file cause)
  | .ok text =>
    match parse text with
    | some c => .ok c
    | none => .error .malformed

/-- The file that the options name. -/
def fileOf (o : Options) : Path := (o.root.getD workingDirectory).join o.configuration

/-- The configuration with what the options say. -/
def override (c : Configuration) (o : Options) : Configuration :=
  { c with
    source := o.source.getD c.source
    output := o.output.getD c.output
    registry := o.registry.or c.registry
    docsRoot := o.docs.or c.docsRoot
    cleans := c.cleans || o.cleans }

/-- The configuration with every path taken from a root and made absolute. -/
def locate (files : FileSystem) (root file : Path) (c : Configuration) : Configuration :=
  let root := files.normalizePath root
  let place (p : Path) : Path := files.normalizePath (root.join p)
  { c with
    file := place file
    root := some root
    source := place c.source
    output := place c.output
    registry := c.registry.map place
    docsRoot := c.docsRoot.map place }

/-- What the file and the options say, not checked yet. -/
def gather (files : FileSystem) (o : Options) : Except ConfigurationError Configuration :=
  let file := fileOf o
  match if files.pathExists file then read files file else .ok standard with
  | .error e => .error e
  | .ok c => .ok ((c.override o).locate files (o.root.getD c.rootPath) o.configuration)

/-- The first thing that is wrong with a configuration. -/
def fault? (files : FileSystem) (c : Configuration) : Option ConfigurationError :=
  if !files.pathExists c.source then some (.sourceMissing c.source)
  else if !files.isDirectory c.source then some .sourceNotDirectory
  else if c.source.startsWith c.output then some .outputAroundSource
  else
    match c.registry.filter fun p => !files.isFile p with
    | some registry => some (.registryMissing registry)
    | none => (c.docsRoot.filter fun p => !files.isDirectory p).map .docsNotDirectory

/-- The configuration for the given options, with its trees checked. -/
def load (files : FileSystem) (o : Options) : Except ConfigurationError Configuration :=
  match gather files o with
  | .error e => .error e
  | .ok c =>
    match c.fault? files with
    | some e => .error e
    | none => .ok c

end Configuration

end SchemaLoom
