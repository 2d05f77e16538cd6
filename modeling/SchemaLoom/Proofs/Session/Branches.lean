import SchemaLoom.Json.Equality
import SchemaLoom.Proofs.Ordered
import SchemaLoom.Proofs.Session.Gathering
import SchemaLoom.Proofs.Session.Reports

/-!
# The branches of an import

An import of variants as branches lists the templates directly in a directory and turns each into an
object with a condition and what follows from it. The tokens of a branch are put together for its
variant alone, so nothing that one variant is given reaches the next. Compiling a variant keeps what
is known of those before it, and the importing template keeps its edges while it is being compiled.
-/

namespace SchemaLoom

open Compile FileSystem

variable {w v u : Workbench} {subject : Subject} {contents : Bool} {a : Import.Conditional}
  {variant directory : Path} {b : Json} {length : Nat}

/-! ## The files that are listed -/

theorem FileSystem.lookup_of_mem {place : Place} {entry : Entry} {table : List (Place × Entry)}
    (distinct : (table.map Prod.fst).Nodup) (h : (place, entry) ∈ table) :
    lookup place table = some entry := by
  induction table with
  | nil => simp at h
  | cons e table ih =>
    obtain ⟨p, old⟩ := e
    simp only [List.map_cons, List.nodup_cons] at distinct
    rcases List.mem_cons.mp h with here | later
    · simp only [Prod.mk.injEq] at here
      simp [lookup, here]
    · have other : p ≠ place := fun eq =>
          distinct.1 (eq ▸ List.mem_map_of_mem (f := Prod.fst) later)
      simp [lookup, other, ih distinct.2 later]

/-- The names of files directly in a directory that name variants of an import, in order. -/
structure Listing (files : FileSystem) (directory : Path) (exclude : List String)
    (names : List String) : Prop where
  ordered : names.Pairwise (· < ·)
  exact : ∃ base, files.find directory = .ok (base, .directory) ∧
    ∀ name, name ∈ names ↔ (∃ contents, files.entry? (base ++ [name]) = some (.file contents)) ∧
      (directory.join ⟨name⟩).isTemplate = true ∧ (directory.join ⟨name⟩).stem ∉ exclude

namespace FileSystem

variable {fs : FileSystem} {base : Place} {name : String}

theorem fileIn_iff {e : Place × Entry} : fileIn base e = some name ↔
    ∃ contents, e = (base ++ [name], .file contents) := by
  constructor
  · intro h
    obtain ⟨place, entry⟩ := e
    obtain rfl : place = base ++ [name] := fileIn_eq_some h
    cases entry with
    | directory => simp [fileIn] at h
    | file contents => exact ⟨contents, rfl⟩
  · rintro ⟨contents, rfl⟩
    have below : namesBelow? base (base ++ [name]) = some [name] := namesBelow?_eq_some.mpr rfl
    simp [fileIn, below]

theorem mem_filesNamed (distinct : (fs.entries.map Prod.fst).Nodup) :
    name ∈ fs.entries.filterMap (fileIn base) ↔
      ∃ contents, fs.entry? (base ++ [name]) = some (.file contents) := by
  have ne : base ++ [name] ≠ [] := by simp
  simp only [List.mem_filterMap, fileIn_iff]
  constructor
  · rintro ⟨_, mem, contents, rfl⟩
    refine ⟨contents, ?_⟩
    unfold entry?
    rw [if_neg ne, lookup_of_mem distinct mem]
  · rintro ⟨contents, found⟩
    exact ⟨_, mem_entries found ne, contents, rfl⟩

theorem nodup_filesNamed (distinct : (fs.entries.map Prod.fst).Nodup) :
    (fs.entries.filterMap (fileIn base)).Nodup := by
  rw [List.Nodup, List.pairwise_map] at distinct
  refine List.pairwise_filterMap.mpr (distinct.imp fun other name hn name' hn' eq => ?_)
  exact other ((fileIn_eq_some hn).trans (eq ▸ (fileIn_eq_some hn').symm))

theorem increasing_names {names : List String} (distinct : names.Nodup) :
    (names.mergeSort fun a b => !(b < a)).Pairwise (· < ·) := by
  have distinct : (names.mergeSort fun a b => !(b < a)).Nodup :=
    (List.mergeSort_perm _ _).nodup_iff.mpr distinct
  exact (sorted_names names).imp₂ (fun a b le ne => lt_of_le_of_ne le ne) distinct

end FileSystem

theorem variants_listed {s : Sources} {base : Place} (exclude : List String)
    (distinct : (s.files.entries.map Prod.fst).Nodup)
    (found : s.files.find directory = .ok (base, .directory)) :
    ∃ names, Listing s.files directory exclude names ∧
      s.variants directory exclude = names.map fun name => directory.join ⟨name⟩ := by
  let sorted := (s.files.entries.filterMap (fileIn base)).mergeSort fun a b => !(b < a)
  let kept := fun name : String => (directory.join ⟨name⟩).isTemplate &&
    !exclude.contains (directory.join ⟨name⟩).stem
  have increasing : sorted.Pairwise (· < ·) := increasing_names (nodup_filesNamed distinct)
  refine ⟨sorted.filter kept, ⟨increasing.filter _, base, found, fun name => ?_⟩, ?_⟩
  · rw [List.mem_filter, List.mem_mergeSort, mem_filesNamed distinct]
    simp [kept]
  · rw [Sources.variants, filesIn_of_find found, List.filter_map]
    rfl

theorem Sources.find_of_importDirectory {s : Sources} {raw : String}
    (named : s.importDirectory raw = .ok directory) :
    ∃ base, s.files.find directory = .ok (base, .directory) := by
  unfold Sources.importDirectory at named
  split at named
  · simp at named
  · split at named
    · rename_i isDirectory
      exact isDirectory_iff.mp (Except.ok.inj named ▸ isDirectory)
    · simp at named

/-! ## What a branch is -/

/-- The condition of a variant of a name. -/
def Condition (a : Import.Conditional) (name : String) (condition : Json) : Prop :=
  ∃ tokens : Substitution, Ordered.Overridden [("schemaName", .string name)] a.replace tokens ∧
    tokens.applyJson a.condition = some condition

/-- What follows from the condition of a variant before anything is added to it. -/
inductive Consequence (layout : Layout) (a : Import.Conditional) (variant : Path)
    (s : CompiledSchema) : Bool → Json → Prop where
  | reference {r : Reference} : Reference.ofFile? layout variant = some r →
      Consequence layout a variant s false (.object [("$ref", .string (String.ofList r.text))])
  | contents {named tokens : Substitution} {document : Json} :
      Ordered.Overridden [("schemaName", .string variant.stem)] a.replace named →
      Ordered.Overridden named a.variableValues tokens →
      tokens.applyJson s.document = some document → Consequence layout a variant s true document

/-- A document with entries set on it when it is an object. -/
inductive WithEntries (more : Json.Fields) : Json → Json → Prop where
  | object {fields result : Json.Fields} : Ordered.Overridden fields more result →
      WithEntries more (.object fields) (.object result)
  | other {document : Json} : (∀ fields, document ≠ .object fields) →
      WithEntries more document document

/-- The branch that an import makes of a variant, which is compiled and known as imported. -/
structure BranchOf (w : Workbench) (subject : Subject) (contents : Bool) (a : Import.Conditional)
    (variant : Path) (branch : Json) : Prop where
  linked : w.session.imports.Has subject.source variant
  made : ∃ s condition document consequence, w.state variant = .known s ∧
    Condition a variant.stem condition ∧
    Consequence w.session.layout a variant s contents document ∧
    WithEntries a.thenAdditions document consequence ∧
    branch = .object [("if", condition), ("then", consequence)]

theorem withEntries_addEntries (more : Json.Fields) (document : Json) :
    WithEntries more document (Import.addEntries document more) := by
  cases document with
  | object fields => exact .object (Ordered.overridden_putAll fields more)
  | _ => exact .other nofun

theorem Import.Conditional.overridden_table (a : Import.Conditional) (name : String) :
    Ordered.Overridden [("schemaName", .string name)] a.replace (a.table name) :=
  Ordered.overridden_putAll _ _

theorem Import.applyJson_of_substitute {part item : String} {table : Substitution} {x y : Json}
    (h : Import.substitute part item table x = .ok y) : table.applyJson x = some y := by
  unfold Import.substitute at h
  split at h
  · rename_i v applied
    exact Except.ok.inj h ▸ applied
  · simp at h

theorem Reference.of_referenceTo {s : Sources} {file : Path} {text : String}
    (h : s.referenceTo file = .ok text) :
    ∃ r, Reference.ofFile? s.layout file = some r ∧ String.ofList r.text = text := by
  unfold Sources.referenceTo at h
  split at h
  · rename_i r named
    exact ⟨r, named, Except.ok.inj h⟩
  · simp at h

/-! ## What a compilation leaves alone -/

/-- Nothing that was known is known otherwise, and templates that were known keep their edges. -/
structure Frozen (w v : Workbench) : Prop where
  layout : v.session.layout = w.session.layout
  state : ∀ x, w.state x ≠ .unknown → v.state x = w.state x
  edges : ∀ x d, w.state x ≠ .unknown → w.session.imports.Has x d → v.session.imports.Has x d

namespace Frozen

theorem refl (w : Workbench) : Frozen w w := ⟨rfl, fun _ _ => rfl, fun _ _ _ => id⟩

theorem trans (h : Frozen w v) (h' : Frozen v u) : Frozen w u where
  layout := h'.layout.trans h.layout
  state x known := (h'.state x (by rwa [h.state x known])).trans (h.state x known)
  edges x d known has := h'.edges x d (by rwa [h.state x known]) (h.edges x d known has)

theorem linked (w : Workbench) (p d : Path) : Frozen w (w.linked p d) :=
  ⟨rfl, fun _ _ => rfl, fun _ _ _ has => Dependencies.has_record.mpr (.inl has)⟩

theorem within (length : Nat) (p : Path) (w : Workbench) :
    Frozen w (reached (Compile.within length p w)) where
  layout := ((Later.steady w).reached length (P := []) trivial (.refl w)).layout
  state _ known := (within_frozen length p known).1
  edges _ d known := ((within_frozen length p known).2 d).mpr

end Frozen

theorem BranchOf.frozen (h : BranchOf w subject contents a variant b) (frozen : Frozen w v)
    (busy : w.state subject.source = .cycle) : BranchOf v subject contents a variant b := by
  obtain ⟨linked, s, condition, document, consequence, known, rest⟩ := h
  refine ⟨frozen.edges _ _ (by simp [busy]) linked, s, condition, document, consequence, ?_,
    frozen.layout ▸ rest⟩
  exact (frozen.state variant (by simp [known])).trans known

/-! ## The branches, one after the other -/

theorem dependency_known {p d : Path} {s : CompiledSchema}
    (run : dependency (within length) p d w = .ok s v) : Frozen w v ∧ v.state d = .known s := by
  rw [dependency_run] at run
  have frozen := Frozen.within length d (w.linked p d)
  rw [run, reached_ok] at frozen
  exact ⟨(Frozen.linked w p d).trans frozen, within_known run⟩

/-- A template that compiles on behalf of one that is being compiled is another one, so the import
is recorded. -/
theorem dependency_kept {p d : Path} {s : CompiledSchema} (busy : w.state p = .cycle)
    (run : dependency (within length) p d w = .ok s v) :
    Frozen w v ∧ v.session.imports.Has p d ∧ v.state d = .known s := by
  obtain ⟨frozen, known⟩ := dependency_known run
  refine ⟨frozen, ?_, known⟩
  rw [dependency_run] at run
  have later := Frozen.within length d (w.linked p d)
  rw [run, reached_ok] at later
  have busy' : (w.linked p d).state p ≠ .unknown := by
    change w.state p ≠ .unknown
    simp [busy]
  have other : p.same d = false := by
    rw [Bool.eq_false_iff]
    intro same
    have cycle : v.state p = .cycle := (later.state p busy').trans busy
    rw [Workbench.state, Cache.state_congr same] at cycle
    simp [Workbench.state, cycle] at known
  have edge : (w.linked p d).session.imports.Has p d :=
    Dependencies.has_record.mpr (.inr ⟨other, p.same_self, d.same_self⟩)
  exact later.edges p d busy' edge

theorem consequence_follows {s : CompiledSchema} {document : Json}
    (run : consequence subject contents a variant s w = .ok document v) :
    w = v ∧ Consequence w.session.layout a variant s contents document := by
  unfold consequence at run
  cases contents with
  | true =>
    obtain ⟨substituted, same⟩ := ofImport_eq_ok.mp run
    exact ⟨same, .contents (a.overridden_table _) (Ordered.overridden_putAll _ _)
      (Import.applyJson_of_substitute substituted)⟩
  | false =>
    rw [if_neg Bool.false_ne_true] at run
    unfold Compile.sources at run
    rw [bind_assoc, get_bind_run, pure_bind] at run
    obtain ⟨text, u, referred, run⟩ := bind_eq_ok.mp run
    obtain ⟨named, rfl⟩ := ofImport_eq_ok.mp referred
    obtain ⟨r, is, rfl⟩ := Reference.of_referenceTo named
    cases run
    exact ⟨rfl, .reference is⟩

theorem branchFor_exact (busy : w.state subject.source = .cycle)
    (run : branchFor (within length) subject contents a variant w = .ok b v) :
    Frozen w v ∧ BranchOf v subject contents a variant b := by
  obtain ⟨condition, u, begun, run⟩ := bind_eq_ok.mp run
  obtain ⟨conditioned, rfl⟩ := ofImport_eq_ok.mp begun
  obtain ⟨s, u, asked, run⟩ := bind_eq_ok.mp run
  obtain ⟨frozen, linked, known⟩ := dependency_kept busy asked
  obtain ⟨document, u', goesOn, run⟩ := bind_eq_ok.mp run
  obtain ⟨rfl, follows⟩ := consequence_follows goesOn
  cases run
  exact ⟨frozen, linked, s, condition, document, _, known,
    ⟨_, a.overridden_table _, Import.applyJson_of_substitute conditioned⟩, follows,
    withEntries_addEntries _ _, rfl⟩

/-- What is made of a template, and lasts while nothing known becomes known otherwise, lasts while
the same is done for the templates behind it. -/
theorem forall₂_of_frozen {β : Type} {I : Workbench → Prop} {f : Path → Compile β}
    {R : Workbench → Path → β → Prop} (stays : ∀ {w v}, Frozen w v → I w → I v)
    (lasts : ∀ {w v x b}, Frozen w v → I w → R w x b → R v x b)
    (one : ∀ {w v x b}, I w → f x w = .ok b v → Frozen w v ∧ R v x b) {list : List Path}
    {made : List β} (holds : I w) (run : list.mapM f w = .ok made v) :
    Frozen w v ∧ List.Forall₂ (R v) list made := by
  induction list generalizing w made with
  | nil =>
    rw [List.mapM_nil] at run
    cases run
    exact ⟨.refl _, .nil⟩
  | cons x list ih =>
    rw [List.mapM_cons] at run
    obtain ⟨b, u, here, run⟩ := bind_eq_ok.mp run
    obtain ⟨frozen, related⟩ := one holds here
    obtain ⟨rest, u', later, run⟩ := bind_eq_ok.mp run
    cases run
    obtain ⟨frozen', others⟩ := ih (stays frozen holds) later
    exact ⟨frozen.trans frozen', .cons (lasts frozen' (stays frozen holds) related) others⟩

theorem branches_exact {variants : List Path} {branches : List Json}
    (busy : w.state subject.source = .cycle)
    (run : variants.mapM (branchFor (within length) subject contents a) w = .ok branches v) :
    Frozen w v ∧ List.Forall₂ (BranchOf v subject contents a) variants branches :=
  forall₂_of_frozen (I := fun w => w.state subject.source = .cycle)
    (R := fun w => BranchOf w subject contents a)
    (fun frozen busy => (frozen.state _ (by simp [busy])).trans busy)
    (fun frozen busy made => made.frozen frozen busy) branchFor_exact busy run

theorem listVariants_exact {raw : String} {exclude : List String} {variants : List Path}
    (distinct : (w.files.entries.map Prod.fst).Nodup)
    (run : listVariants subject raw exclude w = .ok (directory, variants) v) :
    w = v ∧ ∃ names, w.sources.importDirectory raw = .ok directory ∧
      Listing w.files directory exclude names ∧
      variants = names.map fun name => directory.join ⟨name⟩ := by
  rw [Uniform.listVariants_eq, get_bind_run] at run
  obtain ⟨directory, u, names, run⟩ := bind_eq_ok.mp run
  obtain ⟨named, rfl⟩ := ofImport_eq_ok.mp names
  cases run
  obtain ⟨base, found⟩ := Sources.find_of_importDirectory named
  obtain ⟨names, listing, variants⟩ := variants_listed (s := w.sources) exclude distinct found
  exact ⟨rfl, names, named, listing, variants⟩

/-- While a template is being compiled, among files that are listed once each, an import of variants
makes one branch for each file of the directory that is a template and not excluded, in the order of
their names. -/
theorem conditionalBranches_exact {branches : List Json}
    (distinct : (w.files.entries.map Prod.fst).Nodup) (busy : w.state subject.source = .cycle)
    (run : conditionalBranches (within length) subject contents a w = .ok branches v) :
    ∃ directory names, w.sources.importDirectory a.path = .ok directory ∧
      Listing w.files directory a.exclude names ∧
      List.Forall₂ (fun name => BranchOf v subject contents a (directory.join ⟨name⟩))
        names branches := by
  obtain ⟨⟨directory, variants⟩, u, lists, run⟩ := bind_eq_ok.mp run
  obtain ⟨rfl, names, named, listing, rfl⟩ := listVariants_exact distinct lists
  refine ⟨directory, names, named, listing, ?_⟩
  obtain ⟨⟨⟩, u, said, run⟩ := bind_eq_ok.mp run
  have busy' : (reached (sayVariants subject "" directory "variants"
      (names.map fun name => directory.join ⟨name⟩).length w)).state subject.source = .cycle := busy
  rw [said, reached_ok] at busy'
  have made := (branches_exact busy' run).2
  rwa [List.forall₂_map_left_iff] at made

/-! ## A directory of kinds -/

/-- A template that is being compiled, and beside it a directory of two templates, an excluded one
and another file. -/
def importingKinds : Workbench where
  session := { Session.start ⟨⟨"/src"⟩, ⟨"/out"⟩⟩ none none false with
    cache := Cache.empty.begin_ ⟨"/src/a.yml"⟩ }
  files := ⟨[], [(["src"], .directory), (["src", "a.yml"], .file (.text "")),
    (["src", "kinds"], .directory),
    (["src", "kinds", "bow.yml"], .file (.text "title: $material $schemaName")),
    (["src", "kinds", "notes.txt"], .file (.text "")),
    (["src", "kinds", "shield.yml"], .file (.text "")),
    (["src", "kinds", "sword.yml"], .file (.text "type: object\ntitle: $material"))]⟩
  log := []

/-- An import whose variables give a token another value than its replacements. -/
def kindsImport : Import.Conditional where
  path := "kinds"
  condition := .object [("const", .string "$material/$schemaName")]
  replace := [("material", .string "wood")]
  variableValues := [("material", .string "iron")]
  exclude := ["shield"]
  thenAdditions := [("type", .string "string"), ("examples", .array [])]

def bowBranch : Json := Import.branch (.object [("const", .string "wood/bow")])
  (.object [("title", .string "iron bow"), ("type", .string "string"), ("examples", .array [])])

def swordBranch : Json := Import.branch (.object [("const", .string "wood/sword")])
  (.object [("type", .string "string"), ("title", .string "iron"), ("examples", .array [])])

/-- The import when it has said what it found. -/
def kindsFound : Workbench :=
  reached (sayVariants ⟨⟨"/src/a.yml"⟩, "a"⟩ "" ⟨"/src/kinds"⟩ "variants" 2 importingKinds)

/-- The import when a variant is compiled. -/
def kindsAfter (w : Workbench) (variant : Path) :
    EStateM.Result BuildError Workbench CompiledSchema :=
  within 2 variant (w.linked ⟨"/src/a.yml"⟩ variant)

/-- The import when both variants are compiled. -/
def kindsSaid : Workbench :=
  reached (kindsAfter (reached (kindsAfter kindsFound ⟨"/src/kinds/bow.yml"⟩))
    ⟨"/src/kinds/sword.yml"⟩)

theorem Substitution.applyJson_of_sorted {table : Substitution} {x : Json}
    (sorted : table.Pairwise fun e e' => Substitution.noLater e e' = true)
    (ne : table.isEmpty = false) :
    table.applyJson x = Json.parseChars (table.foldl (fun cs e =>
      Text.replaceAll (Substitution.needle e.1) (Json.escape (Substitution.valueText e.2)) cs)
        (table.applyTyped (Json.compactChars x))) := by
  unfold Substitution.applyJson Substitution.applyWith Substitution.ordered
  rw [ne, List.mergeSort_of_pairwise sorted]
  rfl

theorem branchFor_kinds (name : String) (said document : Json) {condition : Json}
    (stem : variant.stem = name) (answers : (match kindsAfter w variant with
      | .ok s _ => decide (s.document = said)
      | .error _ _ => false) = true)
    (conditioned : Substitution.applyJson [("schemaName", .string name),
      ("material", .string "wood")]
      kindsImport.condition = some condition)
    (follows : Substitution.applyJson [("schemaName", .string name), ("material", .string "iron")]
      said = some document) :
    branchFor (within 2) ⟨⟨"/src/a.yml"⟩, "a"⟩ true kindsImport variant w =
      .ok (Import.branch condition (Import.addEntries document kindsImport.thenAdditions))
        (reached (kindsAfter w variant)) := by
  subst stem
  cases run : kindsAfter w variant with
  | error e v => simp [run] at answers
  | ok s v =>
    rw [run] at answers
    obtain rfl := of_decide_eq_true answers
    exact branchFor_run conditioned run follows

theorem importingKinds_variants : importingKinds.sources.variants ⟨"/src/kinds"⟩ ["shield"] =
    [⟨"/src/kinds/bow.yml"⟩, ⟨"/src/kinds/sword.yml"⟩] := by
  have found : importingKinds.sources.files.find ⟨"/src/kinds"⟩ =
      .ok (["src", "kinds"], .directory) := by decide +kernel
  have names : (importingKinds.sources.files.entries.filterMap (fileIn ["src", "kinds"])).mergeSort
      (fun a b => !(b < a)) = ["bow.yml", "notes.txt", "shield.yml", "sword.yml"] :=
    List.mergeSort_of_pairwise (by decide)
  rw [Sources.variants, filesIn_of_find found, names]
  decide +kernel

theorem branchFor_bow : branchFor (within 2) ⟨⟨"/src/a.yml"⟩, "a"⟩ true kindsImport
    ⟨"/src/kinds/bow.yml"⟩ kindsFound =
      .ok bowBranch (reached (kindsAfter kindsFound ⟨"/src/kinds/bow.yml"⟩)) := by
  refine branchFor_kinds "bow" (.object [("title", .string "$material $schemaName")])
    (.object [("title", .string "iron bow")]) (by decide +kernel) (by decide +kernel) ?_ ?_
  · rw [Substitution.applyJson_of_sorted (by decide +kernel) rfl]
    decide +kernel
  · rw [Substitution.applyJson_of_sorted (by decide +kernel) rfl]
    decide +kernel

theorem branchFor_sword : branchFor (within 2) ⟨⟨"/src/a.yml"⟩, "a"⟩ true kindsImport
    ⟨"/src/kinds/sword.yml"⟩ (reached (kindsAfter kindsFound ⟨"/src/kinds/bow.yml"⟩)) =
      .ok swordBranch kindsSaid := by
  refine branchFor_kinds "sword"
    (.object [("type", .string "object"), ("title", .string "$material")])
    (.object [("type", .string "object"), ("title", .string "iron")])
    (by decide +kernel) (by decide +kernel) ?_ ?_
  · rw [Substitution.applyJson_of_sorted (by decide +kernel) rfl]
    decide +kernel
  · rw [Substitution.applyJson_of_sorted (by decide +kernel) rfl]
    decide +kernel

theorem conditionalBranches_exact_kinds :
    ∃ v, conditionalBranches (within 2) ⟨⟨"/src/a.yml"⟩, "a"⟩ true kindsImport importingKinds =
        .ok [bowBranch, swordBranch] v ∧
      ∃ directory names, importingKinds.sources.importDirectory "kinds" = .ok directory ∧
        Listing importingKinds.files directory ["shield"] names ∧
        List.Forall₂ (fun name => BranchOf v ⟨⟨"/src/a.yml"⟩, "a"⟩ true kindsImport
          (directory.join ⟨name⟩)) names [bowBranch, swordBranch] := by
  have named : importingKinds.sources.importDirectory "kinds" = .ok ⟨"/src/kinds"⟩ := by rfl
  have said : sayVariants ⟨⟨"/src/a.yml"⟩, "a"⟩ "" ⟨"/src/kinds"⟩ "variants" 2 importingKinds =
      .ok ⟨⟩ kindsFound := rfl
  have made : [⟨"/src/kinds/bow.yml"⟩, ⟨"/src/kinds/sword.yml"⟩].mapM
      (branchFor (within 2) ⟨⟨"/src/a.yml"⟩, "a"⟩ true kindsImport) kindsFound =
        .ok [bowBranch, swordBranch] kindsSaid := by
    rw [List.mapM_cons, bind_run_ok branchFor_bow, List.mapM_cons, bind_assoc,
      bind_run_ok branchFor_sword]
    rfl
  have run : conditionalBranches (within 2) ⟨⟨"/src/a.yml"⟩, "a"⟩ true kindsImport importingKinds =
      .ok [bowBranch, swordBranch] kindsSaid :=
    (bind_run_ok (listVariants_run named importingKinds_variants) _).trans
      ((bind_run_ok said _).trans made)
  exact ⟨_, run, conditionalBranches_exact (by decide) rfl run⟩

end SchemaLoom
