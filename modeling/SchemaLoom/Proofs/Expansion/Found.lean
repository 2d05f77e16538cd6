import SchemaLoom.Proofs.Discovery.Reached
import SchemaLoom.Proofs.Expansion.Pending

/-!
# Where calls are found

Every call is found on an object that holds its key. What stands in the layer of an import is
visited before the import, and what follows it is not visited; so no import comes before a call in
its layer.
-/

namespace SchemaLoom

namespace Discovery

variable {fields : Json.Fields} {w : Json} {e : Entry}

/-- What the walk comes to in an object stands before the object's import, or is the import. -/
theorem before_import (nodup : (Ordered.names fields).Nodup)
    (member : (Directive.importKey, w) ∈ fields) (entry : e ∈ entries (.object fields)) :
    e.place = [.key Directive.importKey] ∨
      (Json.object fields).Before e.place [.key Directive.importKey] := by
  have first : ∀ {k u}, Unclaimed fields k u → k ≠ Directive.importKey → ∀ l,
      (Json.object fields).Before (.key k :: l) [.key Directive.importKey] := by
    rintro k u ⟨before, rest, rfl, free⟩ other l
    have later : Directive.importKey ∈ Ordered.names rest := by
      have named : Directive.importKey ∈ Ordered.names (before ++ (k, u) :: rest) :=
        List.mem_map_of_mem member
      simpa only [Ordered.names_append, Ordered.names_cons, List.mem_append, List.mem_cons, free,
        other.symm, false_or] using named
    exact Json.before_of_rank (Json.rank_key_lt nodup later) _ _
  rw [entries, mem_fieldEntries] at entry
  rcases entry with ⟨here, unclaimed⟩ | ⟨k, u, unclaimed, plain, d, -, rfl⟩
  · have place : e.place = [.key e.key] := by rw [Entry.place, here, List.nil_append]
    by_cases importing : e.key = Directive.importKey
    · exact .inl (by rw [place, importing])
    · exact .inr (by rw [place]; exact first unclaimed importing [])
  · refine .inr (first unclaimed ?_ _)
    rintro rfl
    exact absurd plain (by decide)

/-- No import comes before a call in its layer. -/
theorem import_behind_layer {document : Json} (distinct : document.DistinctKeys) :
    (ofDocument document).calls.Pairwise fun a b =>
      a.IsImport → ¬ a.context.location <+: b.context.location := by
  refine (before_calls distinct).imp_of_mem ?_
  rintro a b ha hb before ⟨arguments, importing⟩ ⟨l, inLayer⟩
  obtain ⟨fields, reached, asks⟩ := (exists_call_iff distinct).mp ⟨a, ha, rfl, importing⟩
  cases asks with
  | importing member =>
    obtain ⟨e, entry, asked⟩ := (mem_calls distinct).mp hb
    obtain ⟨layer, place⟩ := place_of_call? distinct entry asked
    obtain ⟨inner, way, unclaimed⟩ := mem_entries.mp entry
    rw [← layer, ← inLayer] at way
    obtain ⟨u, toLayer, below⟩ := reaches_append.mp way
    obtain rfl := Option.some.inj ((toLayer.at? distinct).symm.trans (reached.at? distinct))
    -- The entry that asks for the second call, seen from the layer of the first.
    have seen : (⟨l, e.key, e.value⟩ : Entry) ∈ entries (.object fields) :=
      mem_entries.mpr ⟨inner, below, unclaimed⟩
    have imported : a.place = a.context.location ++ [.key Directive.importKey] := by
      rw [DeferredCall.place, DeferredCall.key, importing]
    have asking : b.place = a.context.location ++ Entry.place ⟨l, e.key, e.value⟩ := by
      rw [place, Entry.place, Entry.place, ← layer, ← inLayer, List.append_assoc]
    rw [imported, asking] at before
    have before := (Json.before_append_iff (reached.at? distinct)).mp before
    rcases before_import (distinct.at? (reached.at? distinct)).nodup member seen with same | first
    · exact Json.Before.irrefl _ _ (same ▸ before)
    · exact first.asymm before

end Discovery

namespace Expansion

open Discovery

theorem standing_start {document : Json} (distinct : document.DistinctKeys) :
    Standing document [] (Discovery.ofDocument document).calls := by
  refine ⟨fun call found => ?_, import_behind_layer distinct⟩
  obtain ⟨e, entry, asked⟩ := (mem_calls distinct).mp found
  obtain ⟨fields, reached, unclaimed⟩ := mem_entries.mp entry
  have layer : call.context.location = e.layer := (place_of_call? distinct entry asked).1
  refine ⟨fields, layer ▸ reached.at? distinct, ?_⟩
  rw [key_of_action? (call?_eq_some asked).1]
  exact unclaimed.mem_names

end Expansion

end SchemaLoom
