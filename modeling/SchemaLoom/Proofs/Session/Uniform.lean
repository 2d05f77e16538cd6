import SchemaLoom.Proofs.Session.Run
import SchemaLoom.Session.Compile

/-!
# Compilations that are uniform in how imports are compiled

Expanding a template uses the compilation of other templates only by asking for it. Apart from that
it looks at the session and at the source tree, and notes messages and diagnostics. What holds of
these few steps holds of the whole expansion, by induction on how it is put together.
-/

namespace SchemaLoom

/-- Whatever an expansion looks at is the same on both workbenches. -/
structure SameView (w v : Workbench) : Prop where
  layout : w.session.layout = v.session.layout
  registry : w.session.registry = v.session.registry
  docs : w.session.docs = v.session.docs
  directory : ∀ raw, w.sources.importDirectory raw = v.sources.importDirectory raw
  variants : ∀ raw directory exclude, w.sources.importDirectory raw = .ok directory →
    w.sources.variants directory exclude = v.sources.variants directory exclude
  single : ∀ relative, w.files.findSource? w.session.layout relative =
    v.files.findSource? v.session.layout relative
  page : ∀ site url, w.session.docs = some site →
    (site.page w.files url).toOption = (site.page v.files url).toOption

/-- An import of a directory finds the same. -/
structure Sources.SameVariants (s t : Sources) (raw : String) (exclude : List String) : Prop where
  directory : s.importDirectory raw = t.importDirectory raw
  variants : ∀ directory, s.importDirectory raw = .ok directory →
    s.variants directory exclude = t.variants directory exclude

/-- Whatever a directive looks at is the same on both workbenches. -/
def ImportDirective.Alike (w v : Workbench) : ImportDirective → Prop
  | .conditional a | .conditionalContents a => w.sources.SameVariants v.sources a.path a.exclude
  | .registry a => (w.session.registry.bind fun r => r.lookup a.registryKey) =
      v.session.registry.bind fun r => r.lookup a.registryKey
  | .filesIntoArray a => w.sources.SameVariants v.sources a.path a.exclude
  | .include_ a =>
    w.files.findSource? w.session.layout ⟨Sources.relativeImport a.path⟩ =
      v.files.findSource? v.session.layout ⟨Sources.relativeImport a.path⟩ ∧
    -- The directory is looked at only when no template has its name.
    (w.files.findSource? w.session.layout ⟨Sources.relativeImport a.path⟩ = none →
      w.sources.SameVariants v.sources a.path a.exclude)

theorem SameView.sameVariants {w v : Workbench} (h : SameView w v) (raw : String)
    (exclude : List String) : w.sources.SameVariants v.sources raw exclude :=
  ⟨h.directory raw, fun directory => h.variants raw directory exclude⟩

theorem SameView.alike {w v : Workbench} (h : SameView w v) (d : ImportDirective) :
    d.Alike w v := by
  cases d with
  | conditional a => exact h.sameVariants a.path a.exclude
  | conditionalContents a => exact h.sameVariants a.path a.exclude
  | registry a =>
    show _ = _
    rw [h.registry]
  | filesIntoArray a => exact h.sameVariants a.path a.exclude
  | include_ a => exact ⟨h.single _, fun _ => h.sameVariants a.path a.exclude⟩

/-- The directives of a call that imports. -/
def DeferredCall.imports (call : DeferredCall) : List ImportDirective :=
  match call.action with
  | .importing arguments => (ImportDirective.parseAll arguments).toOption.getD []
  | .template _ => []

/-- The directives of a document that import. -/
def Json.imports (document : Json) : List ImportDirective :=
  (Discovery.ofDocument document).calls.flatMap DeferredCall.imports

/-- Everything that an import can find satisfies `A`. -/
structure Finds (A : Path → Prop) (w : Workbench) : Prop where
  variants : ∀ raw directory exclude, w.sources.importDirectory raw = .ok directory →
    ∀ d ∈ w.sources.variants directory exclude, A d
  single : ∀ relative d, w.files.findSource? w.session.layout relative = some d → A d

/-- Only messages and diagnostics differ. -/
def Quiet (w v : Workbench) : Prop :=
  v.files = w.files ∧ ∃ diagnostics, v.session = { w.session with diagnostics }

namespace Compile

/-- Compilations on behalf of `subject` that ask for templates satisfying `A`, look and note; their
results satisfy `Q`. They cannot tell apart workbenches that are related by `V`. -/
inductive Uniform (V : Workbench → Workbench → Prop) (A : Path → Prop) (subject : Subject) :
    {α : Type} → ((Path → Compile CompiledSchema) → Compile α) → (α → Prop) → Prop where
  | pure {α : Type} {Q : α → Prop} (a : α) : Q a → Uniform V A subject (fun _ => Pure.pure a) Q
  | throw {α : Type} {Q : α → Prop} (id : String) (fault : ImportFault) :
      Uniform V A subject (fun _ => (MonadExcept.throw (.importing id fault) : Compile α)) Q
  | look {α : Type} {Q : α → Prop}
      {f : Workbench → (Path → Compile CompiledSchema) → Compile α} :
      (∀ w v, V w v → f w = f v) → (∀ w, Finds A w → Uniform V A subject (f w) Q) →
      Uniform V A subject (fun compile => get >>= fun w => f w compile) Q
  | note (g : Workbench → Workbench) : (∀ w, Quiet w (g w)) →
      Uniform V A subject (fun _ => modify g) fun _ => True
  | call (path : Path) : A path →
      Uniform V A subject (fun compile => dependency compile subject.source path) fun _ => True
  | bind {α β : Type} {P : α → Prop} {Q : β → Prop}
      {x : (Path → Compile CompiledSchema) → Compile α}
      {f : α → (Path → Compile CompiledSchema) → Compile β} :
      Uniform V A subject x P → (∀ a, P a → Uniform V A subject (f a) Q) →
      Uniform V A subject (fun compile => x compile >>= fun a => f a compile) Q

theorem quiet_say (w : Workbench) (part message : String) : Quiet w (w.say part message) :=
  ⟨rfl, w.session.diagnostics, rfl⟩

namespace Uniform

variable {V : Workbench → Workbench → Prop} {A : Path → Prop} {subject : Subject} {α β : Type}

theorem mono {x : (Path → Compile CompiledSchema) → Compile α} {P Q : α → Prop}
    (h : Uniform V A subject x P) (weaker : ∀ a, P a → Q a) : Uniform V A subject x Q := by
  have hb : Uniform V A subject (fun compile => x compile >>= fun a => Pure.pure a) Q :=
    h.bind fun a ha => .pure a (weaker a ha)
  simpa using hb

theorem discard {x : (Path → Compile CompiledSchema) → Compile α} {P : α → Prop}
    (h : Uniform V A subject x P) :
    Uniform V A subject (fun compile => discard (x compile)) fun _ => True := by
  simp only [discard_eq]
  exact h.bind fun _ _ => .pure _ trivial

theorem mapM {f : α → (Path → Compile CompiledSchema) → Compile β} (list : List α)
    (h : ∀ a ∈ list, Uniform V A subject (f a) fun _ => True) :
    Uniform V A subject (fun compile => list.mapM fun a => f a compile) fun _ => True := by
  induction list with
  | nil => exact .pure _ trivial
  | cons a list ih =>
    simp only [List.mapM_cons]
    exact (h a List.mem_cons_self).bind fun b _ =>
      (ih fun c mem => h c (List.mem_cons_of_mem _ mem)).bind fun _ _ => .pure _ trivial

theorem forM {f : α → (Path → Compile CompiledSchema) → Compile PUnit} (list : List α)
    (h : ∀ a ∈ list, Uniform V A subject (f a) fun _ => True) :
    Uniform V A subject (fun compile => list.forM fun a => f a compile) fun _ => True := by
  induction list with
  | nil => exact .pure _ trivial
  | cons a list ih =>
    exact (h a List.mem_cons_self).bind fun _ _ => ih fun c mem => h c (List.mem_cons_of_mem _ mem)

theorem foldlM {f : β → α → (Path → Compile CompiledSchema) → Compile β} (list : List α)
    (h : ∀ b, ∀ a ∈ list, Uniform V A subject (f b a) fun _ => True) (b : β) :
    Uniform V A subject (fun compile => list.foldlM (fun b a => f b a compile) b)
      fun _ => True := by
  induction list generalizing b with
  | nil => exact .pure _ trivial
  | cons a list ih =>
    simp only [List.foldlM_cons]
    exact (h b a List.mem_cons_self).bind fun b _ =>
      ih (fun b c mem => h b c (List.mem_cons_of_mem _ mem)) b

/-! ## Imports -/

theorem ofImport (id : String) (result : Except ImportFault α) :
    Uniform V A subject (fun _ => Compile.ofImport id result) fun a => result = .ok a := by
  cases result with
  | ok a => exact .pure a rfl
  | error fault => exact .throw _ _

theorem say (part message : String) :
    Uniform V A subject (fun _ => Compile.say part message) fun _ => True :=
  .note _ fun w => quiet_say w part message

theorem quiet_recordAll (w : Workbench) (diagnostics : List Diagnostic) :
    Quiet w (w.recordAll diagnostics) := ⟨rfl, _, rfl⟩

/-- The directory that an import names and the variants in it, as files and layout show them. -/
def variantsOf (subject : Subject) (s : Sources) (raw : String) (exclude : List String) :
    Compile (Path × List Path) := do
  let directory ← Compile.ofImport subject.id (s.importDirectory raw)
  return (directory, s.variants directory exclude)

theorem variantsOf_eq {s t : Sources} {raw : String} {exclude : List String}
    (same : s.SameVariants t raw exclude) :
    variantsOf subject s raw exclude = variantsOf subject t raw exclude := by
  unfold variantsOf
  rw [← same.directory]
  cases hd : s.importDirectory raw with
  | ok directory => simp only [Compile.ofImport, pure_bind, same.variants directory hd]
  | error fault => rfl

theorem variantsFound {w : Workbench} (finds : Finds A w) (raw : String) (exclude : List String) :
    Uniform V A subject (fun _ => variantsOf subject w.sources raw exclude)
      fun found => ∀ d ∈ found.2, A d :=
  (ofImport _ _).bind fun directory hd => .pure _ (finds.variants raw directory exclude hd)

theorem listVariants_eq (raw : String) (exclude : List String) :
    Compile.listVariants subject raw exclude =
      get >>= fun w => variantsOf subject w.sources raw exclude := by
  unfold Compile.listVariants Compile.sources variantsOf
  simp only [bind_assoc, pure_bind]

theorem listVariants {raw : String} {exclude : List String}
    (same : ∀ w v, V w v → w.sources.SameVariants v.sources raw exclude) :
    Uniform V A subject (fun _ => Compile.listVariants subject raw exclude)
      fun found => ∀ d ∈ found.2, A d := by
  simp only [listVariants_eq]
  refine .look (fun w v related => ?_) fun w finds => variantsFound finds raw exclude
  rw [variantsOf_eq (same w v related)]

theorem saySession (part : String) (message : Session → String) :
    Uniform V A subject (fun _ => Compile.session >>= fun s => Compile.say part (message s))
      fun _ => True :=
  .note _ fun w => quiet_say w part (message w.session)

theorem sayVariants (what : String) (directory : Path) (noun : String) (count : Nat) :
    Uniform V A subject (fun _ => Compile.sayVariants subject what directory noun count)
      fun _ => True := by
  unfold Compile.sayVariants
  exact saySession "import" _

theorem anyImport (id : String) (result : Except ImportFault α) :
    Uniform V A subject (fun _ => Compile.ofImport id result) fun _ => True :=
  (ofImport id result).mono fun _ _ => trivial

/-- A directory is listed on the workbench on which no template was found. -/
theorem includeFiles_eq (compile : Path → Compile CompiledSchema) (a : Import.Include) :
    Compile.includeFiles compile subject a = get >>= fun w =>
      match w.files.findSource? w.session.layout ⟨Sources.relativeImport a.path⟩ with
      | some single =>
        let shown := w.session.layout.display single
        Compile.say "import" s!"include {shown} into {subject.id}" >>= fun _ =>
          Functor.discard (dependency compile subject.source single)
      | none => variantsOf subject w.sources a.path a.exclude >>= fun found =>
        Compile.sayVariants subject "include " found.1 "files" found.2.length >>= fun _ =>
          found.2.forM fun variant =>
            Functor.discard (dependency compile subject.source variant) := by
  funext w
  unfold Compile.includeFiles Compile.sources
  simp only [bind_assoc, pure_bind, listVariants_eq]
  rw [get_bind_run, get_bind_run]
  simp only [Workbench.sources]
  cases w.files.findSource? w.session.layout ⟨Sources.relativeImport a.path⟩ with
  | some single => rfl
  | none => rfl

theorem registryItems {a : Import.Items}
    (alike : ∀ w v, V w v → (ImportDirective.registry a).Alike w v) :
    Uniform V A subject (fun _ => Compile.registryItems subject a) fun _ => True := by
  unfold Compile.registryItems Compile.session
  simp only [bind_assoc, pure_bind]
  refine .look (fun w v related => ?_) fun w _ => ?_
  · have same : _ = _ := alike w v related
    rw [same]
  · cases w.session.registry.bind fun r => r.lookup a.registryKey with
    | none => exact .throw _ _
    | some items => exact (say _ _).bind fun _ _ => anyImport _ _

section Layout

variable (layout : ∀ w v, V w v → w.session.layout = v.session.layout)
include layout

theorem reference (variant : Path) {f : String → (Path → Compile CompiledSchema) → Compile β}
    (next : ∀ text, Uniform V A subject (f text) fun _ => True) :
    Uniform V A subject (fun compile => Compile.sources >>= fun s =>
      Compile.ofImport subject.id (s.referenceTo variant) >>= fun text => f text compile)
      fun _ => True := by
  unfold Compile.sources
  simp only [bind_assoc, pure_bind]
  refine .look (fun w v related => ?_) fun w _ => (anyImport _ _).bind fun text _ => next text
  have : w.sources.referenceTo variant = v.sources.referenceTo variant := by
    simp [Sources.referenceTo, Workbench.sources, layout w v related]
  rw [this]

theorem consequence (contents : Bool) (a : Import.Conditional) (variant : Path)
    (compiled : CompiledSchema) :
    Uniform V A subject (fun _ => Compile.consequence subject contents a variant compiled)
      fun _ => True := by
  unfold Compile.consequence
  cases contents with
  | true => exact anyImport _ _
  | false => exact reference layout variant fun _ => .pure _ trivial

theorem branchFor (contents : Bool) (a : Import.Conditional) {variant : Path} (h : A variant) :
    Uniform V A subject (fun compile => Compile.branchFor compile subject contents a variant)
      fun _ => True :=
  (anyImport _ _).bind fun _ _ => (call variant h).bind fun compiled _ =>
    (consequence layout contents a variant compiled).bind fun _ _ => .pure _ trivial

theorem conditionalBranches (contents : Bool) {a : Import.Conditional}
    (same : ∀ w v, V w v → w.sources.SameVariants v.sources a.path a.exclude) :
    Uniform V A subject (fun compile => Compile.conditionalBranches compile subject contents a)
      fun _ => True :=
  (listVariants same).bind fun found h =>
    (sayVariants "" found.1 "variants" found.2.length).bind fun _ _ =>
      mapM found.2 fun d mem => branchFor layout contents a (h d mem)

theorem fileItem (a : Import.Files) {variant : Path} (h : A variant) :
    Uniform V A subject (fun compile => Compile.fileItem compile subject a variant)
      fun _ => True := by
  unfold Compile.fileItem
  exact (call variant h).discard.bind fun _ _ => reference layout variant fun _ => anyImport _ _

theorem fileItems {a : Import.Files}
    (same : ∀ w v, V w v → w.sources.SameVariants v.sources a.path a.exclude) :
    Uniform V A subject (fun compile => Compile.fileItems compile subject a) fun _ => True :=
  (listVariants same).bind fun found h =>
    (sayVariants "" found.1 "files" found.2.length).bind fun _ _ =>
      mapM found.2 fun d mem => fileItem layout a (h d mem)

theorem includeFiles {a : Import.Include}
    (alike : ∀ w v, V w v → (ImportDirective.include_ a).Alike w v) :
    Uniform V A subject (fun compile => Compile.includeFiles compile subject a) fun _ => True := by
  simp only [includeFiles_eq]
  refine .look (fun w v related => ?_) fun w finds => ?_
  · obtain ⟨single, variants⟩ := alike w v related
    funext compile
    rw [← single]
    cases hs : w.files.findSource? w.session.layout ⟨Sources.relativeImport a.path⟩ with
    | some single => simp only [layout w v related]
    | none => simp only [variantsOf_eq (variants hs)]
  · cases hf : w.files.findSource? w.session.layout ⟨Sources.relativeImport a.path⟩ with
    | some single =>
      exact (say _ _).bind fun _ _ => (call single (finds.single _ _ hf)).discard
    | none =>
      exact (variantsFound finds a.path a.exclude).bind fun found h =>
        (sayVariants "include " found.1 "files" found.2.length).bind fun _ _ =>
          forM found.2 fun d mem => (call d (h d mem)).discard

theorem yieldOf {directive : ImportDirective} (alike : ∀ w v, V w v → directive.Alike w v) :
    Uniform V A subject (fun compile => Compile.yieldOf compile subject directive)
      fun _ => True := by
  cases directive with
  | conditional a =>
    exact (conditionalBranches layout false alike).bind fun _ _ => .pure _ trivial
  | conditionalContents a =>
    exact (conditionalBranches layout true alike).bind fun _ _ => .pure _ trivial
  | registry a => exact (registryItems alike).bind fun _ _ => .pure _ trivial
  | filesIntoArray a => exact (fileItems layout alike).bind fun _ _ => .pure _ trivial
  | include_ a => exact (includeFiles layout alike).bind fun _ _ => .pure _ trivial

theorem executeImport (document : Json) (context : Context) {arguments : Json}
    (alike : ∀ directives, ImportDirective.parseAll arguments = .ok directives →
      ∀ d ∈ directives, ∀ w v, V w v → d.Alike w v) :
    Uniform V A subject (fun compile =>
      Compile.executeImport compile subject document context arguments) fun _ => True :=
  (ofImport _ _).bind fun directives parsed =>
    (foldlM directives (fun _ d mem => (yieldOf layout (alike directives parsed d mem)).bind
      fun _ _ => (anyImport _ _).bind fun _ _ => .pure _ trivial) _).bind
        fun _ _ => anyImport _ _

/-! ## Expanding a template -/

theorem execute (document : Json) {call : DeferredCall}
    (alike : ∀ d ∈ call.imports, ∀ w v, V w v → d.Alike w v) :
    Uniform V A subject (fun compile => Compile.execute compile subject document call)
      fun _ => True := by
  unfold Compile.execute
  unfold DeferredCall.imports at alike
  cases hc : call.action with
  | template key => exact .pure _ trivial
  | importing arguments =>
    rw [hc] at alike
    refine executeImport layout document call.context fun directives parsed d mem => alike d ?_
    simp only [parsed]
    exact mem

theorem executeAll (document : Json) (splices : List Splice) {calls : List DeferredCall}
    (alike : ∀ call ∈ calls, ∀ d ∈ call.imports, ∀ w v, V w v → d.Alike w v) :
    Uniform V A subject (fun compile => Compile.executeAll compile subject document splices calls)
      fun _ => True := by
  induction calls generalizing document splices with
  | nil => exact .pure _ trivial
  | cons call calls ih =>
    simp only [Compile.executeAll]
    have first : ∀ d ∈ (shifted splices call).imports, ∀ w v, V w v → d.Alike w v :=
      alike call List.mem_cons_self
    exact (execute layout document first).bind fun _ _ =>
      ih _ _ fun call mem => alike call (List.mem_cons_of_mem _ mem)

end Layout

theorem correlated_eq {site : Docs.Site} {files files' : FileSystem} {id url : String}
    (same : (site.page files url).toOption = (site.page files' url).toOption) (document : Json) :
    (correlated site files id url document).1 = (correlated site files' id url document).1 := by
  unfold correlated
  cases hp : site.page files url <;> cases hp' : site.page files' url <;>
    simp_all [Except.toOption]

/-- What the documentation makes of a document that asks for it. -/
def correlation (w : Workbench) (id : String) (document : Json) :
    Option (Json × List Diagnostic) :=
  match w.session.docs, document.getString? Directive.docsUrlKey with
  | some site, some url => some (correlated site w.files id url document)
  | _, _ => none

theorem correlateDocs (id : String) {document : Json}
    (docs : ∀ w v, V w v → w.session.docs = v.session.docs)
    (page : ∀ w v, V w v → ∀ site url, w.session.docs = some site →
      document.getString? Directive.docsUrlKey = some url →
      (site.page w.files url).toOption = (site.page v.files url).toOption) :
    Uniform V A subject (fun _ => Compile.correlateDocs id document) fun _ => True := by
  have eq : Compile.correlateDocs id document = get >>= fun w =>
      modify (fun w => (correlation w id document).elim w fun r => w.recordAll r.2) >>= fun _ =>
      Pure.pure ((correlation w id document).elim document Prod.fst) := by
    funext w
    unfold Compile.correlateDocs correlation
    rw [get_bind_run, get_bind_run, modify_bind_run]
    cases w.session.docs with
    | none => rfl
    | some site => cases document.getString? Directive.docsUrlKey <;> rfl
  rw [eq]
  refine .look (fun w v related => ?_) fun w _ =>
    Uniform.bind (.note _ fun w => ?_) fun _ _ => .pure _ trivial
  · funext _
    unfold correlation
    rw [← docs w v related]
    cases hd : w.session.docs with
    | none => rfl
    | some site =>
      cases hu : document.getString? Directive.docsUrlKey with
      | none => rfl
      | some url =>
        simp only [Option.elim_some, correlated_eq (page w v related site url hd hu)]
  · cases correlation w id document with
    | none => exact ⟨rfl, _, rfl⟩
    | some r => exact quiet_recordAll w _

end Uniform

/-- What becomes of a document that was read: directives are executed, documentation is correlated,
and what is left of the directives goes. -/
def expanded (compile : Path → Compile CompiledSchema) (subject : Subject) (document : Json) :
    Compile CompiledSchema := do
  let discovery := Discovery.ofDocument document
  modify fun w => w.recordAll (discovery.unknown.map (unknownDirective subject.id))
  let document ← executeAll compile subject document [] discovery.calls
  let document ← correlateDocs subject.id document
  return ⟨subject.id, subject.source, document.stripDirectives, !isInternal document⟩

/-- A document that was read with its directives executed and its documentation correlated. -/
def executed (compile : Path → Compile CompiledSchema) (subject : Subject) (document : Json) :
    Compile Json := do
  let discovery := Discovery.ofDocument document
  modify fun w => w.recordAll (discovery.unknown.map (unknownDirective subject.id))
  let document ← executeAll compile subject document [] discovery.calls
  correlateDocs subject.id document

theorem expanded_eq (compile : Path → Compile CompiledSchema) (subject : Subject)
    (document : Json) : expanded compile subject document =
      executed compile subject document >>= fun document =>
        pure ⟨subject.id, subject.source, document.stripDirectives, !isInternal document⟩ := by
  unfold expanded executed
  simp only [bind_assoc]

/-- Keeps a compiled document for the generation and writes it. -/
def keep (schema : CompiledSchema) : Compile Unit := do
  modifySession fun s => { s with cache := s.cache.finish schema }
  if schema.isExported then write schema

/-- A template's document as it is now; its imports are recorded anew. -/
def begun (subject : Subject) : Compile Json := do
  say "compile" subject.id
  let document ← match (← get).files.readTemplate subject.source with
    | .ok document => pure document
    | .error e => throw e
  modifySession fun s => { s with imports := s.imports.forget subject.source }
  return document

theorem fresh_eq (compile : Path → Compile CompiledSchema) (subject : Subject) :
    fresh compile subject = begun subject >>= fun document =>
      expanded compile subject document >>= fun schema =>
        keep schema >>= fun _ => pure schema := by
  unfold fresh begun expanded keep
  simp only [bind_assoc, pure_bind]
  congr 1
  funext _
  congr 1
  funext w
  cases w.files.readTemplate subject.source with
  | error e => rfl
  | ok document =>
    simp only [bind_assoc, pure_bind]
    iterate 5 (congr 1; funext _)
    split <;> simp

theorem Uniform.expanded_of {V : Workbench → Workbench → Prop} {A : Path → Prop} (subject : Subject)
    {document : Json} (layout : ∀ w v, V w v → w.session.layout = v.session.layout)
    (imports : ∀ d ∈ document.imports, ∀ w v, V w v → d.Alike w v)
    (docs : ∀ w v, V w v → w.session.docs = v.session.docs)
    (page : ∀ w v, V w v → ∀ site url, w.session.docs = some site →
      (site.page w.files url).toOption = (site.page v.files url).toOption) :
    Uniform V A subject (fun compile => expanded compile subject document)
      fun schema => schema.id = subject.id ∧ schema.source = subject.source :=
  Uniform.bind (.note _ fun w => quiet_recordAll w _) fun _ _ =>
    (executeAll layout document [] fun call mem d hd =>
      imports d (List.mem_flatMap.mpr ⟨call, mem, hd⟩)).bind fun _ _ =>
        (correlateDocs subject.id docs fun w v related site url hd _ =>
          page w v related site url hd).bind fun _ _ => .pure _ ⟨rfl, rfl⟩

theorem Uniform.expanded {A : Path → Prop} (subject : Subject) (document : Json) :
    Uniform SameView A subject (fun compile => expanded compile subject document)
      fun schema => schema.id = subject.id ∧ schema.source = subject.source :=
  expanded_of subject (fun _ _ same => same.layout) (fun d _ _ _ same => same.alike d)
    (fun _ _ same => same.docs) fun _ _ same => same.page

theorem executed_of_expanded {compile : Path → Compile CompiledSchema} {subject : Subject}
    {document : Json} {w v : Workbench} {schema : CompiledSchema}
    (h : expanded compile subject document w = .ok schema v) :
    ∃ result, executed compile subject document w = .ok result v ∧
      schema = ⟨subject.id, subject.source, result.stripDirectives, !isInternal result⟩ := by
  rw [expanded_eq] at h
  obtain ⟨result, u, run, h⟩ := bind_eq_ok.mp h
  obtain ⟨rfl, rfl⟩ := EStateM.Result.ok.inj h
  exact ⟨result, run, rfl⟩

theorem expanded_eq_ok {compile : Path → Compile CompiledSchema} {subject : Subject}
    {document : Json} {w v : Workbench} {schema : CompiledSchema}
    (h : expanded compile subject document w = .ok schema v) :
    ∃ w' merged u executed, Quiet w w' ∧
      executeAll compile subject document [] (Discovery.ofDocument document).calls w' =
        .ok merged u ∧
      correlateDocs subject.id merged u = .ok executed v ∧
      schema = ⟨subject.id, subject.source, executed.stripDirectives, !isInternal executed⟩ := by
  obtain ⟨result, run, rfl⟩ := executed_of_expanded h
  unfold executed at run
  simp only [modify_bind_run] at run
  obtain ⟨merged, u, run, correlates⟩ := bind_eq_ok.mp run
  exact ⟨_, merged, u, result, Uniform.quiet_recordAll w _, run, correlates, rfl⟩

end Compile

end SchemaLoom
