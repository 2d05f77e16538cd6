import SchemaLoom.Error
import SchemaLoom.Proofs.DistinctKeys

/-!
# Documents of templates

Whatever its format, the document of a template names no entry of an object twice: a repeated key
replaces the entry that is there.
-/

namespace SchemaLoom

namespace Json

/-- A reader of values that name no entry twice. -/
def ReadsDistinct (value : Reader Json) : Prop :=
  ∀ cs v rest, value cs = some (v, rest) → v.DistinctKeys

theorem ReadsDistinct.items {value : Reader Json} (h : ReadsDistinct value) {bound : Nat}
    {cs rest : List Char} {items : List Json}
    (read : readItems value bound cs = some (items, rest)) :
    ∀ v ∈ items, v.DistinctKeys := by
  induction bound generalizing cs items rest with
  | zero => simp [readItems] at read
  | succ bound ih =>
    simp only [readItems] at read
    split at read
    · simp at read
    · rename_i v _ first
      split at read
      · obtain ⟨rfl, -⟩ := by simpa using read
        simpa using h _ _ _ first
      · split at read
        · rename_i more
          obtain ⟨rfl, -⟩ := by simpa using read
          simpa using ⟨h _ _ _ first, ih more⟩
        · simp at read
      · simp at read

theorem ReadsDistinct.fields {value : Reader Json} (h : ReadsDistinct value) {bound : Nat}
    {cs rest : List Char} {fields : List (String × Json)}
    (read : readFields value bound cs = some (fields, rest)) :
    ∀ e ∈ fields, e.2.DistinctKeys := by
  induction bound generalizing cs fields rest with
  | zero => simp [readFields] at read
  | succ bound ih =>
    simp only [readFields] at read
    split at read <;> try simp at read
    split at read <;> try simp at read
    split at read <;> try simp at read
    split at read <;> try simp at read
    rename_i first
    split at read <;> try simp at read
    · obtain ⟨rfl, -⟩ := read
      simpa using h _ _ _ first
    · split at read <;> try simp at read
      rename_i more
      obtain ⟨rfl, -⟩ := read
      simpa using ⟨h _ _ _ first, fun k v => ih more (k, v)⟩

theorem readValue_distinct (bound depth : Nat) : ReadsDistinct (readValue bound depth) := by
  induction depth with
  | zero =>
    intro cs v rest read
    unfold readValue at read
    split at read <;> try simp at read
    · exact read.1 ▸ .null
    · exact read.1 ▸ .bool true
    · exact read.1 ▸ .bool false
    · split at read <;> simp at read
      exact read.1 ▸ .string _
    · split at read <;> simp at read
      exact read.1 ▸ .number _
  | succ depth ih =>
    intro cs v rest read
    unfold readValue at read
    split at read
    · obtain ⟨rfl, -⟩ := by simpa using read
      exact .null
    · obtain ⟨rfl, -⟩ := by simpa using read
      exact .bool true
    · obtain ⟨rfl, -⟩ := by simpa using read
      exact .bool false
    · split at read <;> simp at read
      exact read.1 ▸ .string _
    · simp only at read
      split at read
      · obtain ⟨rfl, -⟩ := by simpa using read
        exact .array (by simp)
      · split at read <;> simp at read
        rename_i items _ inner
        exact read.1 ▸ .array (ih.items inner)
    · simp only at read
      split at read
      · obtain ⟨rfl, -⟩ := by simpa using read
        exact .empty
      · split at read <;> simp at read
        rename_i fields _ inner
        exact read.1 ▸ .ofList (ih.fields inner)
    · split at read <;> simp at read
      exact read.1 ▸ .number _

theorem parse_distinct {text : String} {v : Json} (parsed : parse text = some v) :
    v.DistinctKeys := by
  unfold parse parseChars at parsed
  split at parsed
  · rename_i read
    split at parsed <;> simp at parsed
    exact parsed ▸ readValue_distinct _ _ _ _ _ read
  · simp at parsed

end Json

namespace Yaml

theorem Number.toJson_distinct {n : Number} {v : Json} (converted : n.toJson = .ok v) :
    v.DistinctKeys := by
  cases n with
  | int n => simp [Number.toJson] at converted; exact converted ▸ .number _
  | real x => simp [Number.toJson] at converted; exact converted ▸ .number _
  | infinity negative => cases negative <;> simp [Number.toJson] at converted
  | nan => simp [Number.toJson] at converted

mutual

theorem Value.toJson_distinct : ∀ (value : Value) {v : Json}, value.toJson = .ok v →
    v.DistinctKeys
  | .null, v, converted => by simp [Value.toJson] at converted; exact converted ▸ .null
  | .bool b, v, converted => by simp [Value.toJson] at converted; exact converted ▸ .bool b
  | .number n, v, converted => by
    rw [Value.toJson] at converted
    exact Number.toJson_distinct converted
  | .string s, v, converted => by simp [Value.toJson] at converted; exact converted ▸ .string s
  | .sequence items, v, converted => by
    rw [Value.toJson] at converted
    split at converted <;> simp at converted
    rename_i items' inner
    exact converted ▸ .array (itemsToJson_distinct items inner)
  | .mapping entries, v, converted => by
    rw [Value.toJson] at converted
    split at converted <;> simp at converted
    rename_i fields inner
    exact converted ▸ entriesToJson_distinct entries .empty inner
  | .tagged _ value, v, converted => by
    rw [Value.toJson] at converted
    exact Value.toJson_distinct value converted

theorem itemsToJson_distinct : ∀ (items : List Value) {vs : List Json},
    itemsToJson items = .ok vs → ∀ v ∈ vs, v.DistinctKeys
  | [], vs, converted => by simp [itemsToJson] at converted; simp [converted]
  | value :: items, vs, converted => by
    rw [itemsToJson] at converted
    split at converted <;> try simp at converted
    rename_i first
    split at converted <;> simp at converted
    rename_i more
    subst converted
    simpa using ⟨Value.toJson_distinct value first, itemsToJson_distinct items more⟩

theorem entriesToJson_distinct : ∀ (entries : List (Value × Value)) {fields result : Json.Fields},
    (Json.object fields).DistinctKeys → entriesToJson fields entries = .ok result →
    (Json.object result).DistinctKeys
  | [], fields, result, distinct, converted => by
    simp [entriesToJson] at converted
    exact converted ▸ distinct
  | (k, value) :: entries, fields, result, distinct, converted => by
    rw [entriesToJson] at converted
    split at converted <;> try simp at converted
    split at converted <;> try simp at converted
    rename_i first
    exact entriesToJson_distinct entries (distinct.put _ (Value.toJson_distinct value first))
      converted

end

end Yaml

namespace Template

theorem read_distinct {format : Format} {text : String} {v : Json}
    (parsed : read format text = .ok v) : v.DistinctKeys := by
  cases format with
  | json =>
    simp only [read] at parsed
    split at parsed <;> simp at parsed
    rename_i inner
    exact parsed ▸ Json.parse_distinct inner
  | yaml =>
    simp only [read] at parsed
    split at parsed <;> try simp at parsed
    split at parsed <;> simp at parsed
    rename_i inner
    exact parsed ▸ Yaml.Value.toJson_distinct _ inner

theorem parse_distinct {format : Format} {text : String} {v : Json}
    (parsed : parse format text = .ok v) : v.DistinctKeys := by
  unfold parse at parsed
  simp only at parsed
  split at parsed
  · simp at parsed
    exact parsed ▸ .empty
  · split at parsed <;> simp at parsed
    rename_i inner
    have distinct := read_distinct inner
    rw [← parsed]
    unfold orEmpty
    split
    · exact .empty
    · exact distinct

end Template

theorem FileSystem.readTemplate_distinct {fs : FileSystem} {file : Path} {document : Json}
    (readable : fs.readTemplate file = .ok document) : document.DistinctKeys := by
  unfold FileSystem.readTemplate at readable
  split at readable <;> try simp at readable
  split at readable <;> simp at readable
  rename_i parsed
  exact readable ▸ Template.parse_distinct parsed

end SchemaLoom
