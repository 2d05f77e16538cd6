import SchemaLoom.Reference.Resolution

/-!
# What resolving depends on

A resolver looks at files only to find the template that a reference names. Two resolvers that find
the same templates resolve every document in the same way.
-/

namespace SchemaLoom.Resolver

/-- Two resolvers for the same template that find the same templates. -/
structure Alike (r r' : Resolver) : Prop where
  layout : r.layout = r'.layout
  source : r.source = r'.source
  found : ∀ relative, r.files.findSource? r.layout relative =
    r'.files.findSource? r'.layout relative

variable {r r' : Resolver}

theorem Alike.replacement? (h : Alike r r') (ref : Reference) :
    r.replacement? ref = r'.replacement? ref := by
  unfold Resolver.replacement?
  split
  · rfl
  · rw [h.found, h.layout, h.source]

theorem Alike.resolveText (h : Alike r r') (s : String) : r.resolveText s = r'.resolveText s := by
  have piece : r.resolvePiece = r'.resolvePiece := by
    funext piece
    cases piece with
    | char c => rfl
    | reference ref => simp [resolvePiece, h.replacement?]
  simp [Resolver.resolveText, piece]

mutual

theorem Alike.resolveNode (h : Alike r r') : (v : Json) → r.resolveNode v = r'.resolveNode v
  | .null | .bool _ | .number _ => by simp [Resolver.resolveNode]
  | .string s => by simp [Resolver.resolveNode, h.resolveText]
  | .array items => by simp [Resolver.resolveNode, h.resolveItems items]
  | .object fields => by simp [Resolver.resolveNode, h.resolveFields fields]

theorem Alike.resolveItems (h : Alike r r') :
    (items : List Json) → r.resolveItems items = r'.resolveItems items
  | [] => rfl
  | v :: vs => by simp [Resolver.resolveItems, h.resolveNode v, h.resolveItems vs]

theorem Alike.resolveFields (h : Alike r r') :
    (fields : List (String × Json)) → r.resolveFields fields = r'.resolveFields fields
  | [] => rfl
  | (k, v) :: rest => by
    simp [Resolver.resolveFields, h.resolveNode v, h.resolveFields rest]

end

end SchemaLoom.Resolver
