import SchemaLoom.Proofs.Expansion.Layer
import SchemaLoom.Proofs.Import.Spelling
import SchemaLoom.Proofs.Path.Characters
import SchemaLoom.Proofs.Session.Branches

/-!
# Imports that append

An import of a registry's items or of files puts one copy of its structure for each of them at the
end of an array of the layer and leaves the rest of the layer as it is. Of a file the structure can
name the stem and the reference, each in two spellings that come to the same.
-/

namespace SchemaLoom

open Compile

variable {w v : Workbench} {subject : Subject} {length : Nat} {variant directory : Path}

/-! ## The items -/

/-- The structure made for a file, which is compiled. -/
structure StructureOf (w : Workbench) (structure_ : Json) (file : Path) (item : Json) : Prop where
  compiled : ∃ s, w.state file = .known s
  made : ∃ r, Reference.ofFile? w.session.layout file = some r ∧
    (Import.fileTable file.stem (String.ofList r.text)).applyJson structure_ = some item

/-- The array that a directive appends to. -/
def ImportDirective.outputKey? : ImportDirective → Option String
  | .registry a => some a.outputKey
  | .filesIntoArray a => some a.outputKey
  | _ => none

/-- The items that a directive appends: one for each item of its registry, in the order of the
registry, or one for each file that its directory lists, by name. Excluded ones are left out. -/
inductive Appends (w v : Workbench) : ImportDirective → List Json → Prop
  | registry {a : Import.Items} {found : List String} {items : List Json} :
      (w.session.registry.bind fun r => r.lookup a.registryKey) = some found →
      List.Forall₂ (fun item made => (a.table item).applyJson a.structure_ = some made)
        (found.filter fun item => item ∉ a.exclude) items →
      Appends w v (.registry a) items
  | files {a : Import.Files} {directory : Path} {names : List String} {items : List Json} :
      w.sources.importDirectory a.path = .ok directory →
      Listing w.files directory a.exclude names →
      List.Forall₂ (fun name => StructureOf v a.structure_ (directory.join ⟨name⟩)) names items →
      ((∀ name ∈ names, '$' ∉ (directory.join ⟨name⟩).chars) →
        ∀ other, Import.RespeltIn a.structure_ other →
          List.Forall₂ (fun name => StructureOf v other (directory.join ⟨name⟩)) names items) →
      Appends w v (.filesIntoArray a) items

theorem forall₂_of_mapM {α β ε : Type} {f : α → Except ε β} {list : List α} {made : List β}
    (h : list.mapM f = .ok made) : List.Forall₂ (fun a b => f a = .ok b) list made := by
  induction list generalizing made with
  | nil =>
    rw [List.mapM_nil] at h
    cases h
    exact .nil
  | cons a list ih =>
    rw [List.mapM_cons] at h
    cases here : f a with
    | error e =>
      rw [here] at h
      cases h
    | ok b =>
      rw [here] at h
      cases later : list.mapM f with
      | error e =>
        rw [later] at h
        cases h
      | ok rest =>
        rw [later] at h
        cases h
        exact .cons here (ih later)

theorem registryItems_exact {a : Import.Items} {items : List Json}
    (run : registryItems subject a w = .ok items v) : Appends w v (.registry a) items := by
  unfold registryItems Compile.session at run
  rw [bind_assoc, get_bind_run, pure_bind] at run
  cases lookup : w.session.registry.bind fun r => r.lookup a.registryKey with
  | none =>
    rw [lookup] at run
    cases run
  | some found =>
    rw [lookup] at run
    obtain ⟨⟨⟩, u, said, run⟩ := bind_eq_ok.mp run
    obtain ⟨made, -⟩ := ofImport_eq_ok.mp run
    have kept : (found.filter fun item => !a.exclude.contains item) =
        found.filter fun item => item ∉ a.exclude := by simp
    rw [Import.Items.structures, kept] at made
    exact .registry lookup ((forall₂_of_mapM made).imp fun _ _ => Import.applyJson_of_substitute)

theorem StructureOf.frozen {structure_ item : Json} (h : StructureOf w structure_ variant item)
    (frozen : Frozen w v) : StructureOf v structure_ variant item := by
  obtain ⟨⟨s, known⟩, made⟩ := h
  exact ⟨⟨s, (frozen.state variant (by simp [known])).trans known⟩, frozen.layout ▸ made⟩

theorem fileItem_exact {a : Import.Files} {item : Json}
    (run : fileItem (within length) subject a variant w = .ok item v) :
    Frozen w v ∧ StructureOf v a.structure_ variant item := by
  unfold fileItem at run
  rw [discard_eq, bind_assoc] at run
  obtain ⟨s, u, asked, run⟩ := bind_eq_ok.mp run
  obtain ⟨frozen, known⟩ := dependency_known asked
  unfold Compile.sources at run
  rw [pure_bind, bind_assoc, get_bind_run, pure_bind] at run
  obtain ⟨text, u', referred, run⟩ := bind_eq_ok.mp run
  obtain ⟨named, rfl⟩ := ofImport_eq_ok.mp referred
  obtain ⟨substituted, rfl⟩ := ofImport_eq_ok.mp run
  obtain ⟨r, is, rfl⟩ := Reference.of_referenceTo named
  exact ⟨frozen, ⟨s, known⟩, r, is, Import.applyJson_of_substitute substituted⟩

theorem Reference.free_text {l : Layout} {file : Path} {r : Reference}
    (h : Reference.ofFile? l file = some r) (free : '$' ∉ file.chars) : '$' ∉ r.text := by
  have inner : ¬ ('$' ∈ r.nameSpace ∨ '$' ∈ r.path) := fun member =>
    free (Reference.mem_of_ofFile? (by decide) (by decide) h member)
  rw [not_or] at inner
  simp [Reference.text, inner]

theorem StructureOf.respelt {structure_ other item : Json}
    (h : StructureOf w structure_ variant item) (same : Import.RespeltIn structure_ other)
    (free : '$' ∉ variant.chars) : StructureOf w other variant item := by
  obtain ⟨compiled, r, is, made⟩ := h
  refine ⟨compiled, r, is, ?_⟩
  rw [← same.applyJson_eq (fun member => free (Path.mem_of_stem member))
    (by simpa using Reference.free_text is free)]
  exact made

theorem fileItems_exact {a : Import.Files} {items : List Json}
    (distinct : (w.files.entries.map Prod.fst).Nodup)
    (run : fileItems (within length) subject a w = .ok items v) :
    Appends w v (.filesIntoArray a) items := by
  obtain ⟨⟨directory, variants⟩, u, lists, run⟩ := bind_eq_ok.mp run
  obtain ⟨rfl, names, named, listing, rfl⟩ := listVariants_exact distinct lists
  obtain ⟨⟨⟩, u, said, run⟩ := bind_eq_ok.mp run
  have made := (forall₂_of_frozen (I := fun _ => True)
    (R := fun w => StructureOf w a.structure_) (fun _ => id)
    (fun frozen _ made => made.frozen frozen) (fun _ => fileItem_exact) trivial run).2
  rw [List.forall₂_map_left_iff] at made
  refine .files named listing made fun free other same => ?_
  refine List.forall₂_iff_get.mpr ⟨made.length_eq, fun i h h' => ?_⟩
  exact (made.get h h').respelt same (free _ (List.get_mem _ _))

/-- The directives with an output key yield items for the array under it. -/
theorem yieldOf_appends {d : ImportDirective} {key : String} {yielded : Splicing.Yield}
    (distinct : (w.files.entries.map Prod.fst).Nodup) (appending : d.outputKey? = some key)
    (run : yieldOf (within length) subject d w = .ok yielded v) :
    ∃ items, yielded = .items key items ∧ Appends w v d items := by
  cases d with
  | registry a =>
    obtain rfl := Option.some.inj appending
    obtain ⟨items, u, made, run⟩ := bind_eq_ok.mp run
    cases run
    exact ⟨items, rfl, registryItems_exact made⟩
  | filesIntoArray a =>
    obtain rfl := Option.some.inj appending
    obtain ⟨items, u, made, run⟩ := bind_eq_ok.mp run
    cases run
    exact ⟨items, rfl, fileItems_exact distinct made⟩
  | _ => cases appending

/-! ## The layer -/

variable {document document' : Json} {l : Location} {key : String} {items : List Json}

/-- Items can be appended only to an array of an object. -/
theorem Splicing.appendItems_eq_ok
    (h : Splicing.appendItems document l key items = .ok document') :
    ∃ before array after,
      document.at? l = some (.object (before ++ (key, .array array) :: after)) ∧
      key ∉ Ordered.names before ∧ document' = document.putAt l
        (.object (before ++ (key, .array (array ++ items)) :: after)) := by
  unfold Splicing.appendItems Splicing.layer? at h
  cases here : document.at? l with
  | none => simp [here] at h
  | some v =>
    cases v with
    | object fields =>
      simp only [here] at h
      cases found : Ordered.get? key fields with
      | none => simp [found] at h
      | some entry =>
        cases entry with
        | array array =>
          simp only [found, Except.ok.injEq] at h
          obtain ⟨before, after, rfl, first⟩ := Ordered.exists_split found
          rw [Ordered.put_split _ _ first] at h
          exact ⟨before, array, after, rfl, first, h.symm⟩
        | _ => simp [found] at h
    | _ => simp [here] at h

/-- What a directive yields is appended when there is an array for it. -/
theorem executeImport_run {compile : Path → Compile CompiledSchema} {c : Context}
    {arguments : Json} {d : ImportDirective} {before after : Json.Fields} {array : List Json}
    (lone : ImportDirective.parseAll arguments = .ok [d])
    (yields : yieldOf compile subject d w = .ok (.items key items) v)
    (here : document.at? c.location = some (.object (before ++ (key, .array array) :: after)))
    (first : key ∉ Ordered.names before) :
    executeImport compile subject document c arguments w =
      .ok (document.putAt c.location (.object (Ordered.erase Directive.importKey
        (before ++ (key, .array (array ++ items)) :: after))), none) v := by
  have place : Splicing.place document c.location (.items key items) =
      .ok (document.putAt c.location
        (.object (before ++ (key, .array (array ++ items)) :: after))) := by
    simp only [Splicing.place, Splicing.appendItems, Expansion.layer?_of_at? here,
      Ordered.get?_split _ _ first, Ordered.put_split _ _ first]
    rfl
  unfold executeImport
  rw [lone, bind_run_ok (ofImport_run _ _ _), List.foldlM_cons]
  simp only [List.foldlM_nil, bind_pure, bind_assoc, pure_bind]
  have none_collected : Splicing.collect none (.items key items) = none := rfl
  rw [bind_run_ok yields, place, bind_run_ok (ofImport_run _ _ _), none_collected,
    Expansion.finish_putAt ⟨_, here⟩ c rfl]
  rfl

/-- A lone import of a registry's items or of files is carried out only if the layer has an array
under the output key. It removes the directive from the layer, appends the items to the array and
changes nothing else in the document. -/
theorem executeImport_appends {c : Context} {arguments : Json} {d : ImportDirective}
    {splice : Option Splice} (distinct : (w.files.entries.map Prod.fst).Nodup)
    (lone : ImportDirective.parseAll arguments = .ok [d]) (appending : d.outputKey? = some key)
    (run : executeImport (within length) subject document c arguments w =
      .ok (document', splice) v) :
    splice = none ∧ ∃ items before array after, Appends w v d items ∧
      document.at? c.location = some (.object (before ++ (key, .array array) :: after)) ∧
      key ∉ Ordered.names before ∧
      document' = document.putAt c.location (.object (Ordered.erase Directive.importKey
        (before ++ (key, .array (array ++ items)) :: after))) := by
  unfold executeImport at run
  rw [lone] at run
  obtain ⟨directives, u, parsed, run⟩ := bind_eq_ok.mp run
  cases parsed
  obtain ⟨⟨placed, collected⟩, u, placing, run⟩ := bind_eq_ok.mp run
  rw [List.foldlM_cons] at placing
  simp only [List.foldlM_nil, bind_pure] at placing
  obtain ⟨yielded, u', yields, placing⟩ := bind_eq_ok.mp placing
  obtain ⟨items, rfl, appends⟩ := yieldOf_appends distinct appending yields
  obtain ⟨appended, u'', put, placing⟩ := bind_eq_ok.mp placing
  obtain ⟨place, rfl⟩ := ofImport_eq_ok.mp put
  cases placing
  obtain ⟨before, array, after, here, first, rfl⟩ := Splicing.appendItems_eq_ok place
  obtain ⟨finished, rfl⟩ := ofImport_eq_ok.mp run
  rw [Expansion.finish_putAt ⟨_, here⟩ c rfl] at finished
  cases finished
  exact ⟨rfl, items, before, array, after, appends, here, first, rfl⟩

/-! ## Kinds and biomes -/

theorem Import.Items.applyJson_table (a : Import.Items) (item : String) (v : Json) :
    (a.table item).applyJson v = Json.parseChars (Text.replaceAll (Substitution.needle "item")
      (Json.escape item.toList) (Text.replaceAll (Substitution.needle "registryKey")
        (Json.escape a.registryKey.toList) (Json.compactChars v))) := by
  have table : a.table item =
      [("item", .string item), ("registryKey", .string a.registryKey)] := by
    simp [Import.Items.table, Substitution.ofTexts, Substitution.insert, Ordered.put]
  have texts : ∀ e ∈ a.table item, e.2.isString = true := by simp [table, Json.isString]
  have sizes : "item".utf8ByteSize = 4 ∧ "registryKey".utf8ByteSize = 11 := by decide +kernel
  have sorted : Substitution.ordered (a.table item) =
      [("registryKey", .string a.registryKey), ("item", .string item)] := by
    rw [table, Substitution.ordered]
    simp [List.mergeSort, List.MergeSort.Internal.splitInTwo, Substitution.noLater, sizes]
  rw [Substitution.applyJson_of_texts texts (by rw [table]; rfl), Substitution.applyWith, sorted]
  rfl

/-- The session of a template that imports, with a registry of biomes. -/
def Session.withBiomes (s : Session) : Session :=
  { s with registry := some ⟨[("mob", ["cow"]), ("biome", ["plains", "desert", "ocean"])]⟩ }

/-- The importing template of a directory of kinds, with a registry of biomes. -/
def importingItems : Workbench := importingKinds.modifySession Session.withBiomes

/-- An import of biomes. -/
def biomesImport : Import.Items :=
  ⟨"biome", "oneOf", .object [("const", .string "$registryKey/$item")], ["desert"]⟩

/-- An import of files that spells the tokens in different ways. -/
def filesImport : Import.Files :=
  ⟨"kinds", "oneOf", .object [("$ref", .string "$$fileRef"), ("title", .string "a $fileName")],
    ["shield"]⟩

def biomesArguments : Json := .object [("type", .string "import_minecraft_registry"),
  ("registry_key", .string "biome"), ("output_key", .string "oneOf"),
  ("schema_structure", .object [("const", .string "$registryKey/$item")]),
  ("exclude", .array [.string "desert"])]

def filesArguments : Json := .array [.object [("type", .string "import_files_into_array"),
  ("path", .string "kinds"), ("output_key", .string "oneOf"),
  ("schema_structure", .object [("$ref", .string "$$fileRef"), ("title", .string "a $fileName")]),
  ("exclude", .array [.string "shield"])]]

/-- A layer with a lone import. -/
def appendingLayer (arguments : Json) : Json :=
  .object [("title", .string "All"), ("$IMPORT", arguments), ("oneOf", .array [.bool true]),
    ("type", .string "object")]

/-- The layer when the import is carried out. -/
def appendedLayer (items : List Json) : Json :=
  .object [("title", .string "All"), ("oneOf", .array (.bool true :: items)),
    ("type", .string "object")]

def biomeItems : List Json :=
  [.object [("const", .string "biome/plains")], .object [("const", .string "biome/ocean")]]

def fileKinds : List Json :=
  [.object [("$ref", .string "ref(kinds:bow)"), ("title", .string "a bow")],
    .object [("$ref", .string "ref(kinds:sword)"), ("title", .string "a sword")]]

theorem biomesImport_structures :
    biomesImport.structures ["plains", "desert", "ocean"] = .ok biomeItems := by
  have made : ∀ item text, (biomesImport.table item).applyJson biomesImport.structure_ =
      some (.object [("const", .string text)]) → Import.substitute "structure" item
        (biomesImport.table item) biomesImport.structure_ =
          .ok (.object [("const", .string text)]) := fun _ _ => Import.substitute_of_applyJson
  have plains := made "plains" "biome/plains"
    (by rw [Import.Items.applyJson_table]; decide +kernel)
  have ocean := made "ocean" "biome/ocean" (by rw [Import.Items.applyJson_table]; decide +kernel)
  have kept : (["plains", "desert", "ocean"].filter fun item =>
      !biomesImport.exclude.contains item) = ["plains", "ocean"] := by decide
  rw [Import.Items.structures, kept, List.mapM_cons, plains, List.mapM_cons, ocean]
  rfl

theorem executeImport_appendingLayer {compile : Path → Compile CompiledSchema}
    {arguments : Json} {d : ImportDirective} (lone : ImportDirective.parseAll arguments = .ok [d])
    (yields : yieldOf compile subject d w = .ok (.items "oneOf" items) v) :
    executeImport compile subject (appendingLayer arguments) (.ofRoot (appendingLayer arguments))
      arguments w = .ok (appendedLayer items, none) v := by
  have here : (appendingLayer arguments).at? (Context.ofRoot (appendingLayer arguments)).location =
      some (.object ([("title", .string "All"), ("$IMPORT", arguments)] ++
        ("oneOf", .array [.bool true]) :: [("type", .string "object")])) := rfl
  exact executeImport_run lone yields here (by simp [Ordered.names])

theorem yieldOf_biomes (subject : Subject) (compile : Path → Compile CompiledSchema) :
    ∃ v, yieldOf compile subject (.registry biomesImport) importingItems =
      .ok (.items "oneOf" biomeItems) v := by
  have lookup : (importingItems.session.registry.bind fun r => r.lookup biomesImport.registryKey) =
      some ["plains", "desert", "ocean"] := by decide +kernel
  have made : ∃ v, registryItems subject biomesImport importingItems = .ok biomeItems v := by
    unfold registryItems Compile.session
    rw [bind_assoc, get_bind_run, pure_bind, lookup]
    dsimp only
    rw [biomesImport_structures]
    exact ⟨_, rfl⟩
  obtain ⟨v, made⟩ := made
  exact ⟨v, bind_run_ok made _⟩

/-- The import when it has said what it found. -/
def filesFound : Workbench :=
  reached (sayVariants ⟨⟨"/src/a.yml"⟩, "a"⟩ "" ⟨"/src/kinds"⟩ "files" 2 importingKinds)

theorem filesFound_layout : filesFound.session.layout = importingKinds.session.layout := rfl

theorem kindsAfter_layout (w : Workbench) (variant : Path) :
    (reached (kindsAfter w variant)).session.layout = w.session.layout :=
  ((Frozen.linked w ⟨"/src/a.yml"⟩ variant).trans
    (Frozen.within 2 variant (w.linked ⟨"/src/a.yml"⟩ variant))).layout

theorem fileItem_kinds {item : Json} {r : Reference}
    (layout : w.session.layout = importingKinds.session.layout)
    (answers : (match kindsAfter w variant with
      | .ok _ _ => true
      | .error _ _ => false) = true)
    (named : Reference.ofFile? importingKinds.session.layout variant = some r)
    (made : (Import.fileTable variant.stem (String.ofList r.text)).applyJson
      filesImport.structure_ = some item) :
    fileItem (within 2) ⟨⟨"/src/a.yml"⟩, "a"⟩ filesImport variant w =
      .ok item (reached (kindsAfter w variant)) := by
  cases run : kindsAfter w variant with
  | error e v => simp [run] at answers
  | ok s v =>
    have asked : dependency (within 2) ⟨"/src/a.yml"⟩ variant w = .ok s v := run
    have refers : v.sources.referenceTo variant = .ok (String.ofList r.text) := by
      have kept := (dependency_known asked).1.layout.trans layout
      simp [Sources.referenceTo, Workbench.sources, kept, named]
    unfold fileItem Compile.sources
    rw [discard_eq, bind_assoc, bind_run_ok asked, pure_bind, bind_assoc, get_bind_run, pure_bind,
      refers, bind_run_ok (ofImport_run _ _ _), Import.substitute_of_applyJson made]
    rfl

theorem fileItem_bow : fileItem (within 2) ⟨⟨"/src/a.yml"⟩, "a"⟩ filesImport
    ⟨"/src/kinds/bow.yml"⟩ filesFound =
      .ok (.object [("$ref", .string "ref(kinds:bow)"), ("title", .string "a bow")])
        (reached (kindsAfter filesFound ⟨"/src/kinds/bow.yml"⟩)) := by
  refine fileItem_kinds (r := ⟨"kinds".toList, "bow".toList⟩) filesFound_layout (by decide +kernel)
    (by decide +kernel) ?_
  rw [Import.applyJson_fileTable]
  decide +kernel

theorem fileItem_sword : fileItem (within 2) ⟨⟨"/src/a.yml"⟩, "a"⟩ filesImport
    ⟨"/src/kinds/sword.yml"⟩ (reached (kindsAfter filesFound ⟨"/src/kinds/bow.yml"⟩)) =
      .ok (.object [("$ref", .string "ref(kinds:sword)"), ("title", .string "a sword")])
        (reached (kindsAfter (reached (kindsAfter filesFound ⟨"/src/kinds/bow.yml"⟩))
          ⟨"/src/kinds/sword.yml"⟩)) := by
  refine fileItem_kinds (r := ⟨"kinds".toList, "sword".toList⟩)
    ((kindsAfter_layout filesFound _).trans filesFound_layout) (by decide +kernel)
    (by decide +kernel) ?_
  rw [Import.applyJson_fileTable]
  decide +kernel

theorem yieldOf_files : ∃ v, yieldOf (within 2) ⟨⟨"/src/a.yml"⟩, "a"⟩
    (.filesIntoArray filesImport) importingKinds = .ok (.items "oneOf" fileKinds) v := by
  have named : importingKinds.sources.importDirectory "kinds" = .ok ⟨"/src/kinds"⟩ := by rfl
  have said : sayVariants ⟨⟨"/src/a.yml"⟩, "a"⟩ "" ⟨"/src/kinds"⟩ "files" 2 importingKinds =
      .ok ⟨⟩ filesFound := rfl
  have made : ∃ v, [⟨"/src/kinds/bow.yml"⟩, ⟨"/src/kinds/sword.yml"⟩].mapM
      (fileItem (within 2) ⟨⟨"/src/a.yml"⟩, "a"⟩ filesImport) filesFound = .ok fileKinds v := by
    rw [List.mapM_cons, bind_run_ok fileItem_bow, List.mapM_cons, bind_assoc,
      bind_run_ok fileItem_sword]
    exact ⟨_, rfl⟩
  obtain ⟨v, made⟩ := made
  have run : fileItems (within 2) ⟨⟨"/src/a.yml"⟩, "a"⟩ filesImport importingKinds =
      .ok fileKinds v :=
    (bind_run_ok (listVariants_run named importingKinds_variants) _).trans
      ((bind_run_ok said _).trans made)
  exact ⟨v, bind_run_ok run _⟩

/-- The biomes and the files that are not excluded stand behind what the array had. -/
theorem executeImport_appends_kinds :
    (∃ v, executeImport (within 2) ⟨⟨"/src/a.yml"⟩, "a"⟩ (appendingLayer biomesArguments)
        (.ofRoot (appendingLayer biomesArguments)) biomesArguments importingItems =
          .ok (appendedLayer biomeItems, none) v ∧
      ∃ items before array after, Appends importingItems v (.registry biomesImport) items ∧
        (appendingLayer biomesArguments).at? [] =
          some (.object (before ++ ("oneOf", .array array) :: after)) ∧
        "oneOf" ∉ Ordered.names before ∧
        appendedLayer biomeItems = .object (Ordered.erase Directive.importKey
          (before ++ ("oneOf", .array (array ++ items)) :: after))) ∧
    ∃ v, executeImport (within 2) ⟨⟨"/src/a.yml"⟩, "a"⟩ (appendingLayer filesArguments)
        (.ofRoot (appendingLayer filesArguments)) filesArguments importingKinds =
          .ok (appendedLayer fileKinds, none) v ∧
      ∃ items before array after, Appends importingKinds v (.filesIntoArray filesImport) items ∧
        (appendingLayer filesArguments).at? [] =
          some (.object (before ++ ("oneOf", .array array) :: after)) ∧
        "oneOf" ∉ Ordered.names before ∧
        appendedLayer fileKinds = .object (Ordered.erase Directive.importKey
          (before ++ ("oneOf", .array (array ++ items)) :: after)) := by
  have biomes : ImportDirective.parseAll biomesArguments = .ok [.registry biomesImport] := rfl
  have files : ImportDirective.parseAll filesArguments = .ok [.filesIntoArray filesImport] := rfl
  constructor
  · obtain ⟨v, yields⟩ := yieldOf_biomes ⟨⟨"/src/a.yml"⟩, "a"⟩ (within 2)
    have run := executeImport_appendingLayer biomes yields
    exact ⟨v, run, (executeImport_appends (by decide) biomes rfl run).2⟩
  · obtain ⟨v, yields⟩ := yieldOf_files
    have run := executeImport_appendingLayer files yields
    exact ⟨v, run, (executeImport_appends (by decide) files rfl run).2⟩

end SchemaLoom
