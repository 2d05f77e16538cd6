import SchemaLoom.Json.Basic
import SchemaLoom.Path.Basic

/-!
# Compiled documents of one generation

Between two clearings a template is compiled at most once. While it is being compiled its entry says
so; reaching such an entry again means that the template imports itself.
-/

namespace SchemaLoom

/-- A compiled document whose references are not resolved yet. -/
structure CompiledSchema where
  id : String
  source : Path
  document : Json
  /-- Whether the document is written to the output tree. -/
  isExported : Bool
deriving Repr

inductive CacheEntry where
  | inProgress
  | done (schema : CompiledSchema)
deriving Repr

structure Cache where
  entries : List (Path × CacheEntry)
  /-- The number of documents compiled. -/
  compiled : Nat
deriving Repr

/-- What is known of a template when its compilation is asked for. -/
inductive CacheState where
  | unknown
  | cycle
  | known (schema : CompiledSchema)
deriving Repr

namespace Cache

def empty : Cache := ⟨[], 0⟩

/-- The entry of a path, whatever way the path is written. -/
def lookup (path : Path) : List (Path × CacheEntry) → Option CacheEntry
  | [] => none
  | (p, e) :: rest => if p.same path then some e else lookup path rest

def put (path : Path) (entry : CacheEntry) : List (Path × CacheEntry) → List (Path × CacheEntry)
  | [] => [(path, entry)]
  | (p, e) :: rest => if p.same path then (p, entry) :: rest else (p, e) :: put path entry rest

def state (c : Cache) (path : Path) : CacheState :=
  match lookup path c.entries with
  | none => .unknown
  | some .inProgress => .cycle
  | some (.done schema) => .known schema

/-- Marks a template as being compiled. -/
def begin_ (c : Cache) (path : Path) : Cache :=
  { c with entries := put path .inProgress c.entries }

/-- Stores a compiled document. -/
def finish (c : Cache) (schema : CompiledSchema) : Cache :=
  ⟨put schema.source (.done schema) c.entries, c.compiled + 1⟩

def isInProgress : CacheEntry → Bool
  | .inProgress => true
  | .done _ => false

/-- Takes back the mark of a compilation that failed; a document that is stored stays. -/
def abandon (c : Cache) (path : Path) : Cache :=
  { c with entries := c.entries.filter fun e => !(e.1.same path && isInProgress e.2) }

end Cache

end SchemaLoom
