import SchemaLoom.Proofs.Session.Locality

/-!
# What directives find

A directive finds the template that it names, or the templates of a directory. An expansion that
succeeds has executed all directives of its document: the directories that they list are there, and
all that they find was asked for.
-/

namespace SchemaLoom

open Compile

variable {A : Path → Prop} {S T : Place} {base w v : Workbench} {subject : Subject}
  {known : Path → Option CompiledSchema} {document : Json} {p d : Path} {s : CompiledSchema}

/-- A template is among the variants of an import. -/
def Sources.Lists (sources : Sources) (raw : String) (exclude : List String) (d : Path) : Prop :=
  ∃ directory, sources.importDirectory raw = .ok directory ∧ d ∈ sources.variants directory exclude

namespace ImportDirective

/-- The template that a directive names, if any. -/
def single? (sources : Sources) (a : Import.Include) : Option Path :=
  sources.files.findSource? sources.layout ⟨Sources.relativeImport a.path⟩

/-- The template is one of those that a directive finds. -/
def Finds (sources : Sources) (d : Path) : ImportDirective → Prop
  | .conditional a | .conditionalContents a => sources.Lists a.path a.exclude d
  | .registry _ => False
  | .filesIntoArray a => sources.Lists a.path a.exclude d
  | .include_ a => single? sources a = some d ∨
      single? sources a = none ∧ sources.Lists a.path a.exclude d

/-- The directory that a directive lists is there. -/
def Opens (sources : Sources) : ImportDirective → Prop
  | .conditional a | .conditionalContents a =>
    ∃ directory, sources.importDirectory a.path = .ok directory
  | .registry _ => True
  | .filesIntoArray a => ∃ directory, sources.importDirectory a.path = .ok directory
  | .include_ a => single? sources a = none →
      ∃ directory, sources.importDirectory a.path = .ok directory

theorem Finds.admitted {directive : ImportDirective} (finds : SchemaLoom.Finds A w)
    (h : directive.Finds w.sources d) : A d := by
  have listed : ∀ {raw exclude}, w.sources.Lists raw exclude d → A d :=
    fun ⟨directory, named, mem⟩ => finds.variants _ directory _ named d mem
  cases directive with
  | conditional a => exact listed h
  | conditionalContents a => exact listed h
  | registry a => exact h.elim
  | filesIntoArray a => exact listed h
  | include_ a => exact h.elim (finds.single _ d) fun other => listed other.2

end ImportDirective

namespace Compile

variable {α β : Type} {x : (Path → Compile CompiledSchema) → Compile α}
  {f : α → (Path → Compile CompiledSchema) → Compile β} {Q : α → Prop} {P : β → Prop}

/-! ## Runs that ask for a template -/

/-- Whenever the run succeeds, the subject has asked for the template. -/
def Demands (subject : Subject) (known : Path → Option CompiledSchema)
    (x : (Path → Compile CompiledSchema) → Compile α) (d : Path) : Prop :=
  ∀ w a v, x (answer known) w = .ok a v → Asked subject v d

/-- An expansion as it goes on after any step. -/
abbrev Proceeds (subject : Subject) (x : (Path → Compile CompiledSchema) → Compile α) : Prop :=
  Uniform SameView (fun _ => True) subject x fun _ => True

theorem Proceeds.keeps (known : Path → Option CompiledSchema) {a : α} (h : Proceeds subject x)
    (run : x (answer known) w = .ok a v) (ask : Asked subject w d) : Asked subject v d :=
  h.asked (finds_any w) run ask

namespace Demands

theorem call (d : Path) : Demands subject known (fun compile =>
    dependency compile subject.source d) d := by
  intro w a v run
  dsimp only at run
  rw [dependency_run, answer_run] at run
  cases hk : known d with
  | none => simp [hk] at run
  | some t =>
    rw [hk] at run
    obtain ⟨-, rfl⟩ := EStateM.Result.ok.inj run
    exact asked_linked w d

theorem before (h : Demands subject known x d) (rest : ∀ a, Proceeds subject (f a)) :
    Demands subject known (fun compile => x compile >>= fun a => f a compile) d := by
  intro w b v run
  obtain ⟨a, u, first, second⟩ := bind_eq_ok.mp run
  exact (rest a).keeps known second (h w a u first)

theorem after (h : ∀ a, Demands subject known (f a) d) :
    Demands subject known (fun compile => x compile >>= fun a => f a compile) d := by
  intro w b v run
  obtain ⟨a, u, -, second⟩ := bind_eq_ok.mp run
  exact h a u b v second

theorem discard (h : Demands subject known x d) :
    Demands subject known (fun compile => Functor.discard (x compile)) d := by
  simp only [discard_eq]
  exact h.before fun _ => .pure _ trivial

theorem mapM {f : Path → (Path → Compile CompiledSchema) → Compile β} {list : List Path}
    (each : ∀ d ∈ list, Demands subject known (f d) d ∧ Proceeds subject (f d)) (mem : d ∈ list) :
    Demands subject known (fun compile => list.mapM fun a => f a compile) d := by
  induction list with
  | nil => exact absurd mem List.not_mem_nil
  | cons a list ih =>
    obtain ⟨first, rest⟩ := List.forall_mem_cons.mp each
    simp only [List.mapM_cons]
    rcases List.mem_cons.mp mem with rfl | mem
    · exact first.1.before fun b =>
        (Uniform.mapM list fun c hc => (rest c hc).2).bind fun _ _ => .pure _ trivial
    · exact after fun b => (ih rest mem).before fun _ => .pure _ trivial

theorem forM {f : Path → (Path → Compile CompiledSchema) → Compile PUnit} {list : List Path}
    (each : ∀ d ∈ list, Demands subject known (f d) d ∧ Proceeds subject (f d)) (mem : d ∈ list) :
    Demands subject known (fun compile => list.forM fun a => f a compile) d := by
  induction list with
  | nil => exact absurd mem List.not_mem_nil
  | cons a list ih =>
    obtain ⟨first, rest⟩ := List.forall_mem_cons.mp each
    rcases List.mem_cons.mp mem with rfl | mem
    · exact first.1.before fun _ => Uniform.forM list fun c hc => (rest c hc).2
    · exact after fun _ => ih rest mem

end Demands

/-! ## Directives that are executed -/

/-- The directory that a directive lists is there, and what is found was asked for. -/
structure Looked (subject : Subject) (directive : ImportDirective) (w v : Workbench) : Prop where
  opens : directive.Opens w.sources
  asked : ∀ d, directive.Finds w.sources d → Asked subject v d

/-- No step of an expansion touches files or the layout. -/
theorem Uniform.keeps_sources {V : Workbench → Workbench → Prop}
    (h : Uniform V (fun _ => True) subject x Q) {a : α} (run : x (answer known) w = .ok a v) :
    v.sources = w.sources := by
  have kept := h.kept (K := fun u => u.sources = w.sources) (c := answer known)
    (fun u _ => finds_any u)
    (fun _ _ same quiet => by
      obtain ⟨files, diagnostics, session⟩ := quiet
      rw [← same, Workbench.sources, Workbench.sources, files, session])
    (fun _ _ _ same => kept_answer (K := fun u => u.sources = w.sources) same) w rfl
  rw [run] at kept
  exact kept.2

theorem listVariants_eq_ok {raw : String} {exclude : List String} {found : Path × List Path}
    (run : listVariants subject raw exclude w = .ok found v) : w = v ∧
      w.sources.importDirectory raw = .ok found.1 ∧
        found.2 = w.sources.variants found.1 exclude := by
  rw [Uniform.listVariants_eq, get_bind_run] at run
  obtain ⟨directory, u, first, run⟩ := bind_eq_ok.mp run
  obtain ⟨opened, rfl⟩ := ofImport_eq_ok.mp first
  obtain ⟨rfl, rfl⟩ := EStateM.Result.ok.inj run
  exact ⟨rfl, opened, rfl⟩

theorem listed {raw : String} {exclude : List String}
    {f : Path × List Path → (Path → Compile CompiledSchema) → Compile β} {b : β}
    (all : ∀ found, ∀ d ∈ found.2, Demands subject known (f found) d)
    (run : (listVariants subject raw exclude >>= fun found => f found (answer known)) w = .ok b v) :
    (∃ directory, w.sources.importDirectory raw = .ok directory) ∧
      ∀ d, w.sources.Lists raw exclude d → Asked subject v d := by
  obtain ⟨found, u, lists, rest⟩ := bind_eq_ok.mp run
  obtain ⟨rfl, opened, same⟩ := listVariants_eq_ok lists
  refine ⟨⟨_, opened⟩, ?_⟩
  rintro d ⟨directory, opened', mem⟩
  obtain rfl := Except.ok.inj (opened.symm.trans opened')
  exact all found d (same ▸ mem) w b v rest

theorem conditionalBranches_looked (contents : Bool) (a : Import.Conditional) {branches : List Json}
    (run : conditionalBranches (answer known) subject contents a w = .ok branches v) :
    (∃ directory, w.sources.importDirectory a.path = .ok directory) ∧
      ∀ d, w.sources.Lists a.path a.exclude d → Asked subject v d := by
  have branch : ∀ d, Demands subject known (fun c => branchFor c subject contents a d) d ∧
      Proceeds subject fun c => branchFor c subject contents a d := by
    refine fun d => ⟨Demands.after fun _ => (Demands.call d).before fun compiled => ?_,
      Uniform.branchFor (fun _ _ same => same.layout) contents a trivial⟩
    exact (Uniform.consequence (fun _ _ same => same.layout) contents a d compiled).bind
      fun _ _ => .pure _ trivial
  exact listed (f := fun found c => sayVariants subject "" found.1 "variants" found.2.length >>=
    fun _ => found.2.mapM fun d => branchFor c subject contents a d)
    (fun found d mem => .after fun _ => .mapM (fun d _ => branch d) mem) run

theorem fileItems_looked (a : Import.Files) {items : List Json}
    (run : fileItems (answer known) subject a w = .ok items v) :
    (∃ directory, w.sources.importDirectory a.path = .ok directory) ∧
      ∀ d, w.sources.Lists a.path a.exclude d → Asked subject v d := by
  have item : ∀ d, Demands subject known (fun c => fileItem c subject a d) d ∧
      Proceeds subject fun c => fileItem c subject a d := by
    refine fun d => ⟨(Demands.call d).discard.before fun _ => ?_,
      Uniform.fileItem (fun _ _ same => same.layout) a trivial⟩
    exact Uniform.reference (fun _ _ same => same.layout) d fun _ => Uniform.anyImport _ _
  exact listed (f := fun found c => sayVariants subject "" found.1 "files" found.2.length >>=
    fun _ => found.2.mapM fun d => fileItem c subject a d)
    (fun found d mem => .after fun _ => .mapM (fun d _ => item d) mem) run

theorem includeFiles_looked (a : Import.Include)
    (run : includeFiles (answer known) subject a w = .ok ⟨⟩ v) :
    Looked subject (.include_ a) w v := by
  have each :
      ∀ d, Demands subject known (fun c => Functor.discard (dependency c subject.source d)) d ∧
      Proceeds subject fun c => Functor.discard (dependency c subject.source d) :=
    fun d => ⟨(Demands.call d).discard, (Uniform.call d trivial).discard⟩
  unfold includeFiles at run
  obtain ⟨sources, u, here, run⟩ := bind_eq_ok.mp run
  obtain ⟨rfl, rfl⟩ : w.sources = sources ∧ w = u := EStateM.Result.ok.inj here
  cases hs : ImportDirective.single? w.sources a with
  | some single =>
    unfold ImportDirective.single? at hs
    simp only [hs] at run
    obtain ⟨-, u, -, run⟩ := bind_eq_ok.mp run
    refine ⟨fun none => ?_, fun d found => ?_⟩
    · simp [ImportDirective.single?, hs] at none
    · rcases found with found | ⟨none, -⟩
      · obtain rfl : single = d := by simpa [ImportDirective.single?, hs] using found
        exact (each single).1 _ _ _ run
      · simp [ImportDirective.single?, hs] at none
  | none =>
    have none := hs
    unfold ImportDirective.single? at hs
    simp only [hs] at run
    obtain ⟨opens, asked⟩ := listed (f := fun found c =>
      sayVariants subject "include " found.1 "files" found.2.length >>= fun _ =>
        found.2.forM fun d => Functor.discard (dependency c subject.source d))
      (fun found d mem => .after fun _ => .forM (fun d _ => each d) mem) run
    refine ⟨fun _ => opens, fun d found => ?_⟩
    rcases found with found | ⟨-, found⟩
    · simp [none] at found
    · exact asked d found

theorem yieldOf_looked {directive : ImportDirective} {yielded : Splicing.Yield}
    (run : yieldOf (answer known) subject directive w = .ok yielded v) :
    Looked subject directive w v := by
  cases directive with
  | conditional a =>
    obtain ⟨branches, u, first, rest⟩ :=
      bind_eq_ok (x := conditionalBranches (answer known) subject false a).mp run
    obtain ⟨-, rfl⟩ := EStateM.Result.ok.inj rest
    obtain ⟨opens, asked⟩ := conditionalBranches_looked false a first
    exact ⟨opens, asked⟩
  | conditionalContents a =>
    obtain ⟨branches, u, first, rest⟩ :=
      bind_eq_ok (x := conditionalBranches (answer known) subject true a).mp run
    obtain ⟨-, rfl⟩ := EStateM.Result.ok.inj rest
    obtain ⟨opens, asked⟩ := conditionalBranches_looked true a first
    exact ⟨opens, asked⟩
  | registry a => exact ⟨trivial, fun _ found => found.elim⟩
  | filesIntoArray a =>
    obtain ⟨items, u, first, rest⟩ := bind_eq_ok (x := fileItems (answer known) subject a).mp run
    obtain ⟨-, rfl⟩ := EStateM.Result.ok.inj rest
    obtain ⟨opens, asked⟩ := fileItems_looked a first
    exact ⟨opens, asked⟩
  | include_ a =>
    obtain ⟨done, u, first, rest⟩ := bind_eq_ok (x := includeFiles (answer known) subject a).mp run
    obtain ⟨-, rfl⟩ := EStateM.Result.ok.inj rest
    exact includeFiles_looked a first

/-! ## Documents that are expanded -/

theorem Looked.later {directive : ImportDirective} {u : Workbench}
    (h : Looked subject directive w v)
    (keeps : ∀ d, Asked subject v d → Asked subject u d) : Looked subject directive w u :=
  ⟨h.opens, fun d found => keeps d (h.asked d found)⟩

theorem Looked.from {directive : ImportDirective} {u : Workbench} (h : Looked subject directive w v)
    (sources : w.sources = u.sources) : Looked subject directive u v :=
  ⟨sources ▸ h.opens, sources ▸ h.asked⟩

theorem foldlM_looked {f : β → ImportDirective → (Path → Compile CompiledSchema) → Compile β}
    {directives : List ImportDirective}
    (each : ∀ b, ∀ d ∈ directives, Proceeds subject (f b d) ∧
      ∀ w a v, f b d (answer known) w = .ok a v → Looked subject d w v) {b a : β} {w v : Workbench}
    (run : directives.foldlM (fun b d => f b d (answer known)) b w = .ok a v) :
    ∀ d ∈ directives, Looked subject d w v := by
  induction directives generalizing b w with
  | nil => exact fun d mem => absurd mem List.not_mem_nil
  | cons d directives ih =>
    have here := each b d List.mem_cons_self
    have rest : ∀ b, ∀ e ∈ directives, Proceeds subject (f b e) ∧
        ∀ w a v, f b e (answer known) w = .ok a v → Looked subject e w v :=
      fun b e mem => each b e (List.mem_cons_of_mem _ mem)
    rw [List.foldlM_cons] at run
    obtain ⟨c, u, first, remaining⟩ := bind_eq_ok.mp run
    have proceeds : Proceeds subject fun compile =>
        directives.foldlM (fun b d => f b d compile) c :=
      .foldlM directives (fun b e mem => (rest b e mem).1) c
    intro e mem
    rcases List.mem_cons.mp mem with rfl | mem
    · exact (here.2 w c u first).later fun _ => proceeds.keeps known remaining
    · exact (ih rest remaining e mem).from (here.1.keeps_sources first)

theorem executeImport_looked {context : Context} {arguments : Json} {done : Json × Option Splice}
    (run : executeImport (answer known) subject document context arguments w = .ok done v) :
    ∀ d ∈ (ImportDirective.parseAll arguments).toOption.getD [], Looked subject d w v := by
  obtain ⟨directives, u, first, run⟩ := bind_eq_ok.mp run
  obtain ⟨parsed, rfl⟩ := ofImport_eq_ok.mp first
  obtain ⟨⟨merged, collected⟩, u, folded, run⟩ := bind_eq_ok.mp run
  obtain ⟨-, rfl⟩ := ofImport_eq_ok.mp run
  rw [parsed]
  refine foldlM_looked (f := fun b directive c => yieldOf c subject directive >>= fun yielded =>
    ofImport subject.id (Splicing.place b.1 context.location yielded) >>= fun document =>
      pure (document, Splicing.collect b.2 yielded)) (fun b d _ => ⟨?_, fun w a v run => ?_⟩) folded
  · exact (Uniform.yieldOf (fun _ _ same => same.layout) fun _ _ same => same.alike d).bind
      fun _ _ => (Uniform.anyImport _ _).bind fun _ _ => .pure _ trivial
  · obtain ⟨yielded, u, yields, run⟩ := bind_eq_ok.mp run
    obtain ⟨document, u', placed, run⟩ := bind_eq_ok.mp run
    obtain ⟨-, rfl⟩ := ofImport_eq_ok.mp placed
    obtain ⟨-, rfl⟩ := EStateM.Result.ok.inj run
    exact yieldOf_looked yields

theorem execute_looked {call : DeferredCall} {done : Json × Option Splice}
    (run : execute (answer known) subject document call w = .ok done v) :
    ∀ d ∈ call.imports, Looked subject d w v := by
  unfold execute at run
  unfold DeferredCall.imports
  cases hc : call.action with
  | template key => exact fun d mem => absurd mem List.not_mem_nil
  | importing arguments =>
    rw [hc] at run
    exact executeImport_looked run

theorem executeAll_looked {splices : List Splice} {calls : List DeferredCall} {merged : Json}
    (run : executeAll (answer known) subject document splices calls w = .ok merged v) :
    ∀ call ∈ calls, ∀ d ∈ call.imports, Looked subject d w v := by
  induction calls generalizing document splices w with
  | nil => exact fun call mem => absurd mem List.not_mem_nil
  | cons call calls ih =>
    obtain ⟨⟨next, splice⟩, u, first, remaining⟩ := bind_eq_ok.mp run
    have here := execute_looked first
    have alike : ∀ d : ImportDirective, ∀ w v, SameView w v → d.Alike w v :=
      fun d _ _ same => same.alike d
    have executes : Proceeds subject fun c => execute c subject document (shifted splices call) :=
      .execute (fun _ _ same => same.layout) document fun d _ => alike d
    have proceeds : Proceeds subject fun c =>
        executeAll c subject next (splices ++ splice.toList) calls :=
      .executeAll (fun _ _ same => same.layout) next _ fun _ _ d _ => alike d
    intro other mem d hd
    rcases List.mem_cons.mp mem with rfl | mem
    · exact (here d hd).later fun _ => proceeds.keeps known remaining
    · exact (ih remaining other mem d hd).from (executes.keeps_sources first)

theorem attempt_looked (run : attempt base known p document = .ok s v) :
    ∀ d ∈ document.imports, Looked (base.subject p) d base v := by
  obtain ⟨w, merged, u, executed, quiet, executes, correlates, -⟩ := expanded_eq_ok run
  have sources : w.sources = base.sources := by
    obtain ⟨files, diagnostics, session⟩ := quiet
    rw [Workbench.sources, files, session]
    rfl
  have correlating : Proceeds (base.subject p) fun _ => correlateDocs (base.subject p).id merged :=
    .correlateDocs _ (fun _ _ same => same.docs) fun _ _ same site url hs _ => same.page site url hs
  intro d mem
  obtain ⟨call, called, hd⟩ := List.mem_flatMap.mp mem
  exact ((executeAll_looked executes call called d hd).from sources).later
    fun _ => correlating.keeps known correlates

end Compile

/-- A template that compiles lists directories that are there, and asks for all that its directives
find. -/
theorem Good.looked (good : Good base p) (read : base.files.readTemplate p = .ok document) :
    ∀ d ∈ document.imports, d.Opens base.sources ∧ ∀ x, d.Finds base.sources x → Asks base p x := by
  obtain ⟨s, ⟨known, -, answers, read', run⟩⟩ := good
  obtain rfl := Except.ok.inj (read.symm.trans read')
  intro d mem
  have looked := attempt_looked run d mem
  exact ⟨looked.opens, fun x found => (asks_iff answers read run).mpr (looked.asked x found)⟩

end SchemaLoom
