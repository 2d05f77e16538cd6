import SchemaLoom.Proofs.Session.Locality
import SchemaLoom.Proofs.Session.Outputs
import SchemaLoom.Proofs.Session.Reports
import SchemaLoom.Proofs.Session.Upheld

/-!
# What compiling a template reads

A template is compiled from its own text, from what its directives look at, and from the page of
documentation that its document names. The templates that are compiled for it are read in turn, and
when it is written the files are looked at that its references name.
-/

namespace SchemaLoom

open Compile FileSystem

variable {w v u : Workbench} {s t : CompiledSchema} {p x : Path}

/-! ## The page of a document -/

/-- The page that a document names is the same on both. -/
structure SamePage (document : Json) (w v : Workbench) : Prop where
  docs : w.session.docs = v.session.docs
  page : ∀ site url, w.session.docs = some site →
    document.getString? Directive.docsUrlKey = some url →
    (site.page w.files url).toOption = (site.page v.files url).toOption

namespace SamePage

variable {document document' : Json}

theorem symm (h : SamePage document w v) : SamePage document v w :=
  ⟨h.docs.symm, fun site url hs hu => (h.page site url (h.docs.trans hs) hu).symm⟩

theorem trans (h : SamePage document w v) (h' : SamePage document v u) : SamePage document w u :=
  ⟨h.docs.trans h'.docs, fun site url hs hu =>
    (h.page site url hs hu).trans (h'.page site url (h.docs.symm.trans hs) hu)⟩

theorem congr (h : SamePage document w v)
    (same : document.getString? Directive.docsUrlKey = document'.getString? Directive.docsUrlKey) :
    SamePage document' w v :=
  ⟨h.docs, fun site url hs hu => h.page site url hs (same.trans hu)⟩

end SamePage

/-! ## The page that a document names

Neither correlating a document with its page nor removing its directives changes the address. -/

section Address

open Docs

/-- The address under the key of a document's page. -/
def addressIn (fields : Json.Fields) : Option String :=
  (Ordered.get? Directive.docsUrlKey fields).bind Json.asString?

theorem addressIn_cons (k : String) (v : Json) (fields : Json.Fields) :
    addressIn ((k, v) :: fields) =
      if k = Directive.docsUrlKey then v.asString? else addressIn fields := by
  unfold addressIn
  rw [Ordered.get?]
  split <;> rfl

theorem addressIn_stripFields (fields : Json.Fields) :
    addressIn (Json.stripFields fields) = addressIn fields := by
  induction fields with
  | nil => rfl
  | cons e fields ih =>
    obtain ⟨k, v⟩ := e
    have text : v.stripDirectives.asString? = v.asString? := by cases v <;> rfl
    have stays : Json.staysInDocument Directive.docsUrlKey = true := by decide
    unfold Json.stripFields
    split
    · rw [addressIn_cons, addressIn_cons, ih, text]
    · rename_i gone
      rw [addressIn_cons, if_neg, ih]
      rintro rfl
      exact gone stays

theorem addressIn_describe (given : Option String) (fields : Json.Fields) :
    addressIn (describe given fields) = addressIn fields := by
  have appended : ∀ text, addressIn (fields ++ [(descriptionKey, text)]) = addressIn fields := by
    intro text
    induction fields with
    | nil => rfl
    | cons e fields ih =>
      obtain ⟨k, v⟩ := e
      rw [List.cons_append, addressIn_cons, addressIn_cons, ih]
  unfold describe
  split
  · split
    · rfl
    · exact appended _
  · rfl

theorem addressIn_fillFields (page : Page) (ofProperties : Bool) (fields : Json.Fields) :
    addressIn (fillFields page ofProperties fields) = addressIn fields := by
  induction fields with
  | nil => rfl
  | cons e fields ih =>
    obtain ⟨k, v⟩ := e
    have text : ∀ given inner, (fillNode page given inner v).asString? = v.asString? := by
      intro given inner
      cases v <;> rfl
    unfold fillFields
    rw [addressIn_cons, addressIn_cons, ih, text]

theorem getString?_object (fields : Json.Fields) :
    (Json.object fields).getString? Directive.docsUrlKey = addressIn fields := rfl

theorem getString?_stripDirectives (document : Json) :
    document.stripDirectives.getString? Directive.docsUrlKey =
      document.getString? Directive.docsUrlKey := by
  cases document with
  | object fields => exact addressIn_stripFields fields
  | _ => rfl

theorem getString?_correlate (page : Page) (id : String) (ignored : List String) (document : Json) :
    (correlate page id ignored document).1.getString? Directive.docsUrlKey =
      document.getString? Directive.docsUrlKey := by
  unfold correlate
  cases document with
  | object fields =>
    simp only [describeRoot]
    split
    · exact addressIn_describe _ fields
    · unfold fillNode
      rw [getString?_object, addressIn_describe, addressIn_fillFields, addressIn_describe]
      rfl
  | _ =>
    simp only [describeRoot]
    split <;> rfl

/-- Correlating keeps the address. -/
theorem getString?_correlateDocs {id : String} {document executed : Json}
    (run : correlateDocs id document w = .ok executed v) :
    executed.getString? Directive.docsUrlKey = document.getString? Directive.docsUrlKey := by
  unfold correlateDocs at run
  rw [get_bind_run] at run
  cases hs : w.session.docs with
  | none =>
    simp only [hs] at run
    obtain ⟨rfl, -⟩ := EStateM.Result.ok.inj run
    rfl
  | some site =>
    cases hu : document.getString? Directive.docsUrlKey with
    | none =>
      simp only [hs, hu] at run
      obtain ⟨rfl, -⟩ := EStateM.Result.ok.inj run
      exact hu
    | some url =>
      simp only [hs, hu, modify_bind_run] at run
      obtain ⟨rfl, -⟩ := EStateM.Result.ok.inj run
      rw [← hu]
      unfold correlated
      split
      · exact getString?_correlate _ _ _ _
      · rfl

end Address

/-! ## All templates that are compiled for one -/

namespace Workbench

/-- A document is stored. -/
def Contains (w : Workbench) (s : CompiledSchema) : Prop := w.state s.source = .known s

/-- The workbench behind the compilation of a template on its own. -/
def alone (w : Workbench) (p : Path) : Workbench := (w.newGeneration.compile p).2

end Workbench

/-- Whatever compiling a template on its own reads on a workbench is the same on another one. -/
structure Undisturbed (p : Path) (w v : Workbench) : Prop where
  sources : ∀ s, (w.alone p).Contains s → SameSources s.source w v
  pages : ∀ s, (w.alone p).Contains s → SamePage s.document w v
  references : ∀ s, (w.alone p).state p = .known s → v.textOf s = w.textOf s

/-- Writing a document does not change what compiling the template reads. -/
def Harmless (p : Path) (w : Workbench) (s : CompiledSchema) : Prop :=
  ∀ v, Later w v → WellFormed v.files → Undisturbed p w v →
    Undisturbed p w (reached (Compile.write s v))

/-- Paths as the file system spells them. -/
def Canonical (p : Path) : Prop := ∃ place, ValidPlace place ∧ p = pathOf place

/-- A template compiles, with templates at canonical paths only, and nothing that is written on the
way changes what is read for it. -/
structure Steadfast (p : Path) (w : Workbench) : Prop where
  files : WellFormed w.files
  compiles : ∃ s, (w.newGeneration.compile p).1 = .ok s
  spelled : ∀ s, (w.alone p).Contains s → Canonical s.source
  harmless : ∀ s, (w.alone p).Stores s → Harmless p w s

/-- Files and settings are the same. -/
structure SameGround (w v : Workbench) : Prop where
  layout : v.session.layout = w.session.layout
  registry : v.session.registry = w.session.registry
  docs : v.session.docs = w.session.docs
  isPretty : v.session.isPretty = w.session.isPretty
  files : v.files = w.files

namespace SameGround

theorem quiet (h : Quiet w v) : SameGround w v := by
  obtain ⟨files, diagnostics, session⟩ := h
  exact ⟨by rw [session], by rw [session], by rw [session], by rw [session], files⟩

theorem textOf (h : SameGround w v) (s : CompiledSchema) : v.textOf s = w.textOf s := by
  unfold Workbench.textOf
  rw [h.layout, h.files, h.isPretty]

theorem alike (h : SameGround w v) (d : ImportDirective) : d.Alike w v := by
  apply SameView.alike
  have sources : v.sources = w.sources := by
    unfold Workbench.sources
    rw [h.layout, h.files]
  refine ⟨h.layout.symm, h.registry.symm, h.docs.symm, fun _ => by rw [sources],
    fun _ _ _ _ => by rw [sources], fun _ => by rw [h.layout, h.files],
      fun _ _ _ => by rw [h.files]⟩

theorem sameSources (h : SameGround w v) (x : Path) : SameSources x w v :=
  ⟨h.layout.symm, fun _ => by rw [h.files], fun _ _ d _ => h.alike d⟩

theorem samePage (h : SameGround w v) (document : Json) : SamePage document w v :=
  ⟨h.docs.symm, fun _ _ _ _ => by rw [h.files]⟩

theorem undisturbed (h : SameGround w v) (p : Path) : Undisturbed p w v :=
  ⟨fun s _ => h.sameSources s.source, fun s _ => h.samePage s.document, fun s _ => h.textOf s⟩

end SameGround

theorem Undisturbed.congr (h : Undisturbed p w v) (same : SameGround v u) : Undisturbed p w u :=
  ⟨fun s hs => (h.sources s hs).trans (same.sameSources s.source),
    fun s hs => (h.pages s hs).trans (same.samePage s.document),
    fun s hs => (same.textOf s).trans (h.references s hs)⟩

/-! ## How the templates are spelled -/

theorem Canonical.eq_of_same {q : Path} (hp : Canonical p) (hq : Canonical q)
    (h : p.same q = true) : p = q := by
  obtain ⟨a, ha, rfl⟩ := hp
  obtain ⟨b, hb, rfl⟩ := hq
  rw [((leadsTo_pathOf ha).same_iff (leadsTo_pathOf hb)).mp h]

theorem Admits.canonical {T : Place} (h : Admits T p) : Canonical p := by
  obtain ⟨place, valid, same, -⟩ := h
  exact ⟨place, valid, same⟩

/-! ## Outputs apart from the sources

Where the outputs stand apart from the sources, no write changes what is read, and templates are
spelled canonically. -/

/-- All that is stored are templates that can be read outside the output tree. -/
structure Confined (T : Place) (base : Workbench) (P : List Path) (w : Workbench) : Prop where
  unchanged : Unchanged T base w
  marks : w.session.cache.Marks P
  sources : ∀ x s, w.state x = .known s → Admits T s.source ∧
    ∃ document, base.files.readTemplate s.source = .ok document

theorem Confined.start {T : Place} (h : Quiet w v) : Confined T w [] v.newGeneration :=
  ⟨((Unchanged.refl w).quiet h).modifySession rfl rfl rfl rfl,
    ⟨Cache.distinct_empty, by simp, .nil⟩, fun x s known => by
      simp [Workbench.state, Workbench.newGeneration, Workbench.modifySession] at known⟩

namespace Workbench.Sound

variable {S T : Place} (sound : w.Sound S T)
include sound

theorem confined_steady : Steady (Admits T) (fun _ => False) (Confined T w) where
  finds h := sound.toRooted.finds_of_unchanged h.unchanged sound.toRooted.finds
  quiet h hq := by
    refine ⟨h.unchanged.quiet hq, ?_, fun x s => ?_⟩
    · obtain ⟨-, diagnostics, session⟩ := hq
      rw [session]
      exact h.marks
    · rw [state_quiet hq]
      exact h.sources x s
  marked _ h unknown := ⟨h.unchanged.modifySession rfl rfl rfl rfl, h.marks.begin_ unknown,
    fun x s known => h.sources x s ((Cache.known_begin unknown).mp known)⟩
  forgotten _ h := ⟨h.unchanged.modifySession rfl rfl rfl rfl, h.marks, h.sources⟩
  linked _ _ h := ⟨h.unchanged.modifySession rfl rfl rfl rfl, h.marks, h.sources⟩
  unmarked {P v p} _ _ h := by
    have busy : v.session.cache.state p = .cycle := h.marks.busy p List.mem_cons_self
    exact .inr ⟨h.unchanged.modifySession rfl rfl rfl rfl, h.marks.abandon, fun x s known =>
      h.sources x s ((Cache.known_abandon h.marks.distinct (by simp [busy])).mp known)⟩
  keep := by
    rintro P u v p schema document hp hu read hv rfl -
    have read := (sound.toRooted.readTemplate hu.unchanged hp).mp read
    have kept := (sound.toRooted.kept hv.unchanged hp read).1
    have sources : ∀ x s, (v.finished schema).state x = .known s → Admits T s.source ∧
        ∃ document, w.files.readTemplate s.source = .ok document := by
      intro x s known
      rcases Cache.known_finish.mp known with ⟨-, rfl⟩ | ⟨-, known⟩
      · exact ⟨hp, document, read⟩
      · exact hv.sources x s known
    constructor
    · intro u run
      rw [run, reached_ok] at kept
      obtain ⟨marks, known⟩ := keep_ok_known hv.marks run
      exact ⟨kept, marks, fun x s hs => sources x s ((known x s).mp hs)⟩
    · intro e u run
      rw [run, reached_error] at kept
      obtain ⟨marks, known⟩ := keep_error_known hv.marks run
      exact .inr ⟨kept.modifySession rfl rfl rfl rfl, marks, fun x s hs =>
        sources x s ((known x s).mp hs)⟩

theorem confined_alone (hp : Admits T p) : Confined T w [] (w.alone p) :=
  sound.confined_steady.compile hp (.start (.refl w))

theorem confined_batch {paths : List Path} (start : Quiet w v) (admitted : ∀ q ∈ paths, Admits T q)
    (ran : Quiet (v.compileBatch paths).2 u) : Confined T w [] u :=
  sound.confined_steady.quiet (sound.confined_steady.compileAll (.start start) admitted
    fun _ _ _ => id) ran

theorem of_confined {P : List Path} (h : Confined T w P v) : v.Sound S T :=
  sound.of_unchanged h.unchanged

/-- Writing an output changes nothing that compiling a template reads. -/
theorem harmless (hp : Admits T p) (some : ∃ t, (w.alone p).Contains t) (hs : Admits T s.source)
    {document : Json} (read : w.files.readTemplate s.source = .ok document) : Harmless p w s := by
  intro v later files undisturbed
  obtain ⟨t, ht⟩ := some
  obtain ⟨a, c, output, last⟩ := sound.toRooted.output hs read
  have docs : v.session.docs = w.session.docs := (undisturbed.pages t ht).docs.symm
  have still : v.Sound S T :=
    ⟨⟨later.layout ▸ sound.trees, files, later.files.keepsDirectory sound.root⟩, docs ▸ sound.docs⟩
  have unchanged : Unchanged T v (reached (Compile.write s v)) :=
    (still.toRooted.wrote_of_output (.refl v) (later.layout ▸ output) last (write_run s v)).1
  have view := still.sameView unchanged
  have confined := sound.confined_alone hp
  refine ⟨fun t ht => (undisturbed.sources t ht).trans ⟨view.layout, fun document => ?_,
    fun _ _ d _ => view.alike d⟩, fun t ht => (undisturbed.pages t ht).trans ⟨view.docs,
      fun site url hs _ => view.page site url hs⟩, fun t ht => ?_⟩
  · exact (still.toRooted.readTemplate unchanged (confined.sources _ t ht).1).symm
  · exact (still.textOf unchanged t).trans (undisturbed.references t ht)

end Workbench.Sound

end SchemaLoom
