import SchemaLoom.Proofs.Session.Generation

/-!
# Templates that take in what others say

An import of variants puts what they say into the branches of the importing document. What it puts
there is the answer that compiling a variant gives, also where that was given for the same file
under another name: a template that says its own name says it in every document that takes it in.
-/

namespace SchemaLoom

open Compile

variable {compile : Path → Compile CompiledSchema} {subject : Subject} {w u v : Workbench}
  {d directory q : Path} {s : CompiledSchema} {length : Nat}

/-! ## Runs that go through -/

theorem state_newGeneration (w : Workbench) (p : Path) : w.newGeneration.state p = .unknown := rfl

theorem unknown_of_match {state : CacheState}
    (h : (match state with | .unknown => true | _ => false) = true) : state = .unknown := by
  cases state <;> simp_all

theorem known_of_match {state : CacheState}
    (h : (match state with | .known _ => true | _ => false) = true) : ∃ s, state = .known s := by
  cases state <;> simp_all

/-- A template that can be read, executed and kept compiles, if no documentation is correlated. -/
theorem Compile.within_of_executed {document executed : Json}
    (unknown : w.state q = .unknown) (read : w.files.readTemplate q = .ok document)
    (known : (Discovery.ofDocument document).unknown = [])
    (run : executeAll (within length) (w.subject q) document []
      (Discovery.ofDocument document).calls
      (((w.marked q).cleared (w.subject q)).recordAll []) = .ok executed u)
    (docs : u.session.docs = none)
    (kept : keep ⟨(w.subject q).id, q, executed.stripDirectives, !isInternal executed⟩ u =
      .ok ⟨⟩ v) :
    within (length + 1) q w =
      .ok ⟨(w.subject q).id, q, executed.stripDirectives, !isInternal executed⟩ v := by
  have correlates : correlateDocs (w.subject q).id executed u = .ok executed u := by
    unfold correlateDocs
    rw [get_bind_run, docs]
    rfl
  have expands :
      expanded (within length) (w.subject q) document ((w.marked q).cleared (w.subject q)) =
      .ok ⟨(w.subject q).id, q, executed.stripDirectives, !isInternal executed⟩ u := by
    unfold expanded
    rw [modify_bind_run, known, List.map_nil, bind_run_ok run, bind_run_ok correlates]
    rfl
  have read : (w.marked q).files.readTemplate (w.subject q).source = .ok document := read
  have fresh := fresh_run (within length) (w.subject q) (w.marked q)
  rw [read] at fresh
  simp only [expands, kept] at fresh
  rw [within_succ_run, unknown]
  simp only [fresh]

theorem Workbench.compileAll_of_ok {rest : List Path} (run : w.compile q = (.ok s, v)) :
    w.compileAll (q :: rest) = v.compileAll rest := by
  rw [Workbench.compileAll, run]

theorem Workbench.compileBatch_of_run {paths : List Path} {failures : List (Path × BuildError)}
    (run : w.newGeneration.compileAll paths = (failures, v)) :
    w.compileBatch paths = (⟨v.session.cache.compiled, v.session.written, failures⟩, v) := by
  unfold Workbench.compileBatch
  rw [run]

/-! ## Saying a name -/

/-- A document that says something. -/
def saying (text : String) : Json := .object [("description", .string text)]

/-- A document that says the name of its template, and stays out of the output tree. -/
def sayingId : Json := .object [("$DONT_EXPORT", .bool true), ("description", .string "$id")]

theorem Substitution.apply_id (fileName id : String) :
    Substitution.apply [("fileName", .string fileName), ("id", .string id)] "$id" = id := by
  have sorted : Substitution.ordered [("fileName", .string fileName), ("id", .string id)] =
      [("fileName", .string fileName), ("id", .string id)] := by
    refine List.mergeSort_of_pairwise (.cons (fun e mem => ?_) (.cons nofun .nil))
    obtain rfl := List.mem_singleton.mp mem
    rfl
  have text : Text.replaceAll (Substitution.needle "id") id.toList
      (Text.replaceAll (Substitution.needle "fileName") fileName.toList "$id".toList) =
        id.toList ++ [] := rfl
  unfold Substitution.apply Substitution.applyChars Substitution.applyWith
  rw [sorted]
  simp only [List.foldl_cons, List.foldl_nil, id_eq, Substitution.valueText]
  rw [text, List.append_nil, String.ofList_toList]

/-- What is kept of a template that says its name. -/
def Workbench.saidId (w : Workbench) (q : Path) : Workbench :=
  (((w.marked q).cleared (w.subject q)).recordAll []).finished
    ⟨(w.subject q).id, q, saying (w.subject q).id, false⟩

theorem Compile.executeAll_sayingId (compile : Path → Compile CompiledSchema) (subject : Subject)
    (w : Workbench) :
    executeAll compile subject sayingId [] (Discovery.ofDocument sayingId).calls w =
      .ok (.object [("$DONT_EXPORT", .bool true), ("description", .string subject.id)]) w := by
  rw [← Substitution.apply_id subject.fileName subject.id]
  rfl

theorem Compile.within_sayingId (length : Nat) (unknown : w.state q = .unknown)
    (read : w.files.readTemplate q = .ok sayingId) (docs : w.session.docs = none) :
    within (length + 1) q w =
      .ok ⟨(w.subject q).id, q, saying (w.subject q).id, false⟩ (w.saidId q) :=
  within_of_executed unknown read rfl (executeAll_sayingId _ _ _) docs (keep_run _ _)

theorem compile_sayingId (unknown : w.state q = .unknown)
    (read : w.files.readTemplate q = .ok sayingId) (docs : w.session.docs = none) :
    w.compile q = (.ok ⟨(w.subject q).id, q, saying (w.subject q).id, false⟩, w.saidId q) := by
  rw [compile_run, within_sayingId _ unknown read docs]

/-- A template that says its name, and another one behind it. -/
theorem compileAll_sayingId {p : Path} (unknown : w.state q = .unknown)
    (read : w.files.readTemplate q = .ok sayingId) (docs : w.session.docs = none)
    (second : (w.saidId q).compile p = (.ok s, v)) : w.compileAll [q, p] = ([], v) := by
  rw [Workbench.compileAll_of_ok (compile_sayingId unknown read docs),
    Workbench.compileAll_of_ok second, Workbench.compileAll]

/-! ## Taking in a directory -/

/-- The arguments of an import that takes in the directory `v`. -/
def gatheringArguments : Json := .object [("type", .string "import_contents_as_conditional_array"),
  ("path", .string "v"), ("condition", .object [])]

/-- A document that consists of what is said in a directory. -/
def gathering : Json := .object [("$IMPORT", gatheringArguments)]

def gatheringImport : Import.Conditional := ⟨"v", .object [], [], [], [], []⟩

/-- The workbench on which the one variant that was found is compiled. -/
def gatheringAsks (subject : Subject) (directory d : Path) (w : Workbench) : Workbench :=
  (reached (sayVariants subject "" directory "variants" 1 w)).linked subject.source d

theorem Compile.executeAll_gathering {branches : List Json}
    (run : conditionalBranches compile subject true gatheringImport w = .ok branches u) :
    executeAll compile subject gathering [] (Discovery.ofDocument gathering).calls w =
      .ok (.object [("allOf", .array branches)]) u := by
  obtain ⟨context, location, slot, calls⟩ : ∃ context, context.location = [] ∧
      context.arraySlot? = none ∧ (Discovery.ofDocument gathering).calls =
        [⟨context, .importing gatheringArguments⟩] := ⟨_, rfl, rfl, rfl⟩
  have parsed : ImportDirective.parseAll gatheringArguments =
      .ok [.conditionalContents gatheringImport] := rfl
  have yields : yieldOf compile subject (.conditionalContents gatheringImport) w =
      .ok (.branches branches) u := bind_run_ok run _
  have imports : executeImport compile subject gathering context gatheringArguments w =
      .ok (.object [("allOf", .array branches)], none) u := by
    unfold executeImport
    rw [parsed]
    simp only [List.foldlM_cons, List.foldlM_nil, ofImport, pure_bind, bind_assoc, bind_pure]
    rw [bind_run_ok yields]
    simp only [Splicing.place, Splicing.collect, Splicing.finish, location, slot,
      Splicing.insertBranches]
    rfl
  rw [calls]
  simp only [executeAll, execute, shifted, List.foldl_nil]
  rw [bind_run_ok imports]
  rfl

theorem Import.substitute_of_applyJson {part item : String} {table : Substitution} {x y : Json}
    (h : table.applyJson x = some y) : Import.substitute part item table x = .ok y := by
  unfold Import.substitute
  rw [h]

theorem Compile.listVariants_run {raw : String} {exclude : List String} {variants : List Path}
    (found : w.sources.importDirectory raw = .ok directory)
    (lists : w.sources.variants directory exclude = variants) :
    listVariants subject raw exclude w = .ok (directory, variants) w := by
  rw [Uniform.listVariants_eq, get_bind_run, Uniform.variantsOf, found, ← lists]
  rfl

/-- A branch with the contents of a variant, made of what compiling the variant answers. -/
theorem Compile.branchFor_run {a : Import.Conditional} {condition document : Json}
    (conditioned : (a.table d.stem).applyJson a.condition = some condition)
    (answers : compile d (w.linked subject.source d) = .ok s u)
    (follows : ((a.table d.stem).extend a.variableValues).applyJson s.document = some document) :
    branchFor compile subject true a d w =
      .ok (Import.branch condition (Import.addEntries document a.thenAdditions)) u := by
  have asked : dependency compile subject.source d w = .ok s u := answers
  unfold branchFor consequence
  rw [Import.substitute_of_applyJson conditioned, bind_run_ok (ofImport_run _ _ _),
    bind_run_ok asked, if_pos rfl, Import.substitute_of_applyJson follows]
  rfl

theorem Compile.conditionalBranches_gathering
    (found : w.sources.importDirectory "v" = .ok directory)
    (lists : w.sources.variants directory [] = [d])
    (answers : compile d (gatheringAsks subject directory d w) = .ok s u)
    (condition : (gatheringImport.table d.stem).applyJson (.object []) = some (.object []))
    (same : ((gatheringImport.table d.stem).extend gatheringImport.variableValues).applyJson
      s.document = some s.document) :
    conditionalBranches compile subject true gatheringImport w =
      .ok [Import.branch (.object []) (Import.addEntries s.document [])] u := by
  have said : sayVariants subject "" directory "variants" 1 w =
      .ok ⟨⟩ (reached (sayVariants subject "" directory "variants" 1 w)) := rfl
  refine (bind_run_ok (listVariants_run found lists) _).trans ((bind_run_ok said _).trans ?_)
  rw [List.mapM_cons, bind_run_ok (branchFor_run condition answers same)]
  rfl

/-- What compiling a template that takes in the one template of a directory results in. -/
theorem compile_gathering {w v : Workbench} {p d directory : Path} {id : String}
    {asks : Workbench} (asked : gatheringAsks (w.subject p) directory d
      (((w.marked p).cleared (w.subject p)).recordAll []) = asks)
    (unknown : w.state p = .unknown) (read : w.files.readTemplate p = .ok gathering)
    (found : w.sources.importDirectory "v" = .ok directory)
    (lists : w.sources.variants directory [] = [d])
    (unknown' : asks.state d = .unknown) (read' : asks.files.readTemplate d = .ok sayingId)
    (name : (asks.subject d).id = id) (docs : asks.session.docs = none)
    (condition : (gatheringImport.table d.stem).applyJson (.object []) = some (.object []))
    (same : ((gatheringImport.table d.stem).extend gatheringImport.variableValues).applyJson
      (saying id) = some (saying id))
    (kept : keep ⟨(w.subject p).id, p,
      .object [("allOf", .array [Import.branch (.object []) (saying id)])],
      true⟩ (asks.saidId d) = .ok ⟨⟩ v) :
    w.compile p = (.ok ⟨(w.subject p).id, p,
      .object [("allOf", .array [Import.branch (.object []) (saying id)])], true⟩, v) := by
  subst asked
  have answers := within_sayingId w.files.fileCount unknown' read' docs
  rw [name] at answers
  have branches :
      conditionalBranches (within (w.files.fileCount + 1)) (w.subject p) true gatheringImport
      (((w.marked p).cleared (w.subject p)).recordAll []) = _ :=
    conditionalBranches_gathering
      (s := ⟨id, d, saying id, false⟩) found lists answers condition same
  rw [compile_run, within_of_executed unknown read rfl (executeAll_gathering branches) docs kept]
  rfl

end SchemaLoom
