import SchemaLoom.Path.Basic

/-!
# Paths without a file system

`normalize` resolves `.` and `..` by the components alone; `relativeTo` leads from one directory to
another place by the components they do not share.
-/

namespace SchemaLoom.Path

/-- One step of resolving a path: `.` is dropped, and `..` takes back the last step. Where no step
can be taken back it is kept. -/
def resolveStep (resolved : Path) : Component → Path
  | .here => resolved
  | .up =>
    match resolved.parent? with
    | some parent => parent
    | none => resolved.join Component.up.path
  | c => resolved.join c.path

/-- The path with `.` and `..` resolved from left to right. -/
def normalize (p : Path) : Path :=
  p.components.foldl resolveStep (ofChars [])

/-- The number of components that two lists share at their beginning. -/
def commonLength : List Component → List Component → Nat
  | a :: as, b :: bs => if a = b then commonLength as bs + 1 else 0
  | _, _ => 0

/-- The steps that lead from one directory to another place: up to the directory both share, then
down. -/
def stepsFrom (directory target : List Component) : List Component :=
  let shared := commonLength directory target
  List.replicate (directory.length - shared) .up ++ target.drop shared

/-- The path of `target` as seen from `directory`. -/
def relativeTo (target directory : Path) : Path :=
  ofComponents (stepsFrom directory.components target.components)

end SchemaLoom.Path
