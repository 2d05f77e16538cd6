import SchemaLoom.Path.Basic

/-!
# Who imports whom

The edges from importing templates to imported ones, kept from build to build. A change affects
every template from which a changed one can be reached along them.
-/

namespace SchemaLoom

structure ImportEdge where
  importer : Path
  imported : Path
deriving DecidableEq, Repr

structure Dependencies where
  edges : List ImportEdge
deriving DecidableEq, Repr

namespace Dependencies

def empty : Dependencies := ⟨[]⟩

def hasPath (paths : List Path) (p : Path) : Bool := paths.any p.same

/-- Records an import. A template does not depend on itself. -/
def record (d : Dependencies) (importer imported : Path) : Dependencies :=
  if importer.same imported ||
      d.edges.any (fun e => e.importer.same importer && e.imported.same imported)
  then d
  else ⟨d.edges ++ [⟨importer, imported⟩]⟩

/-- Removes what a template imports, before it is compiled anew. -/
def forget (d : Dependencies) (importer : Path) : Dependencies :=
  ⟨d.edges.filter fun e => !e.importer.same importer⟩

/-- Removes a template altogether. -/
def remove (d : Dependencies) (path : Path) : Dependencies :=
  ⟨(d.forget path).edges.filter fun e => !e.imported.same path⟩

/-- The importers of a path that are not among `seen`, each once. -/
def freshImporters (d : Dependencies) (path : Path) (seen : List Path) : List Path :=
  d.edges.foldl (fun fresh e =>
    if e.imported.same path && !hasPath seen e.importer && !hasPath fresh e.importer then
      fresh ++ [e.importer]
    else fresh) []

/-- Follows the edges backwards from the queue; `seen` are the paths met before. Every step takes
one path, and every path but the first ones is the importer of an edge. -/
def follow (d : Dependencies) : Nat → List Path → List Path → List Path
  | 0, _, _ => []
  | _ + 1, _, [] => []
  | bound + 1, seen, path :: queue =>
    let fresh := d.freshImporters path seen
    fresh ++ d.follow bound (seen ++ fresh) (queue ++ fresh)

/-- The templates that import one of `changed`, directly or not, in path order and without the
changed ones. -/
def affected (d : Dependencies) (changed : List Path) : List Path :=
  Path.sort (d.follow (changed.length + d.edges.length) changed changed)

end Dependencies

end SchemaLoom
