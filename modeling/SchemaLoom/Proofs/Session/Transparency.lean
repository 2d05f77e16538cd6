import SchemaLoom.Json.Equality
import SchemaLoom.Proofs.Session.Gathering
import SchemaLoom.Proofs.Session.Outputs

/-!
# Transparency of the cache

A template compiled in the middle of a generation succeeds exactly if it succeeds at the start of
one, and with the same document. So the order of a batch decides neither which templates fail nor
what is written.
-/

namespace SchemaLoom

open SchemaLoom.Path FileSystem Compile

variable {A : Path → Prop} {S T : Place} {base w v v' : Workbench} {p x : Path}
  {s : CompiledSchema} {o q : Place}

/-- An import can name a template. -/
def Workbench.Offers (w : Workbench) (d : Path) : Prop :=
  (∃ raw directory exclude, w.sources.importDirectory raw = .ok directory ∧
    d ∈ w.sources.variants directory exclude) ∨
  ∃ relative, w.files.findSource? w.session.layout relative = some d

theorem Workbench.Sound.batchSetting (sound : base.Sound S T) {paths : List Path}
    (admitted : ∀ p ∈ paths, Admits T p) :
    Setting (fun p => p ∈ paths ∨ base.Offers p) S T base.newGeneration := by
  have finds := sound.newGeneration.toRooted.finds
  refine ⟨sound.newGeneration, ?_, ?_⟩
  · rintro p (mem | ⟨raw, directory, exclude, hd, mem⟩ | ⟨relative, found⟩)
    · exact admitted p mem
    · exact finds.variants raw directory exclude hd p mem
    · exact finds.single relative p found
  · exact ⟨fun raw directory exclude hd d mem => .inr (.inl ⟨raw, directory, exclude, hd, mem⟩),
      fun relative d found => .inr (.inr ⟨relative, found⟩)⟩

theorem laying_newGeneration (base : Workbench) :
    Laying A T base.newGeneration [] base.newGeneration := by
  have unknown : ∀ x s, base.newGeneration.state x ≠ .known s := fun x s => by
    simp [Workbench.state, Workbench.newGeneration, Workbench.modifySession]
  refine ⟨.refl _, Cache.distinct_empty, by simp, .nil, ?_, ?_, ?_, fun _ _ => rfl⟩
  · exact fun x s _ hs => absurd hs (unknown x s)
  · exact fun x s o ho => absurd ho.known (unknown x s)
  · exact fun x s o m ho => absurd ho.known (unknown x s)

/-- The stored documents decide what the files are. -/
theorem Laid.unique (h : Laid A base v) (h' : Laid A base v')
    (same : ∀ x s, A x → (v.state x = .known s ↔ v'.state x = .known s)) (q : Place) :
    v.files.entry? q = v'.files.entry? q := by
  have exports : ∀ {x s o}, Exports A base v x s o ↔ Exports A base v' x s o := fun {x s o} =>
    ⟨fun h => h.congr ((same x s h.admitted).mp h.known),
      fun h => h.congr ((same x s h.admitted).mpr h.known)⟩
  by_cases covered : ∃ x s o, Exports A base v x s o ∧ q <+: o
  · obtain ⟨x, s, o, ho, hq⟩ := covered
    by_cases he : q = o
    · rw [he, h.written x s o ho, h'.written x s o (exports.mp ho)]
    · rw [h.above x s o q ho hq he, h'.above x s o q (exports.mp ho) hq he]
  · have free : ∀ x s o, Exports A base v x s o → ¬ q <+: o :=
      fun x s o ho hq => covered ⟨x, s, o, ho, hq⟩
    rw [h.kept q free, h'.kept q fun x s o ho => free x s o (exports.mpr ho)]

theorem Settled.known_iff (h : Settled A T base [] v) (h' : Settled A T base [] v') (hx : A x)
    (knows : v.Knows x ↔ v'.Knows x) : v.state x = .known s ↔ v'.state x = .known s := by
  constructor
  · intro hs
    obtain ⟨t, ht⟩ := knows.mp ⟨s, hs⟩
    rw [ht, (h.good x s hx hs).unique (h'.good x t hx ht)]
  · intro hs
    obtain ⟨t, ht⟩ := knows.mpr ⟨s, hs⟩
    rw [ht, (h'.good x s hx hs).unique (h.good x t hx ht)]

/-- Within a generation every template compiles as it does at the start of one, and the order of a
batch changes neither the failing templates nor the files. All paths are canonical, as those are
that imports find, and stay out of the output tree: under another spelling a template has another
name, and is stored with it. -/
theorem cache_transparent (sound : base.Sound S T) :
    (∀ w p, Generation T base w → Admits T p →
      base.session.layout.Faultless (w.compile p).1 →
      base.session.layout.Faultless (base.newGeneration.compile p).1 →
      ∀ s, (w.compile p).1 = .ok s ↔ (base.newGeneration.compile p).1 = .ok s) ∧
    ∀ paths paths' : List Path, paths.Perm paths' → (∀ p ∈ paths, Admits T p) →
      NoSharing (fun p => p ∈ paths ∨ base.Offers p) base.session.layout →
      (∀ f ∈ (base.compileBatch paths).1.failures, ¬ base.session.layout.OutputFault f.2) →
      (∀ f ∈ (base.compileBatch paths').1.failures, ¬ base.session.layout.OutputFault f.2) →
      (∀ p, p ∈ (base.compileBatch paths).1.failing ↔
        p ∈ (base.compileBatch paths').1.failing) ∧
      ∀ q, (base.compileBatch paths).2.files.entry? q =
        (base.compileBatch paths').2.files.entry? q := by
  constructor
  · intro w p generation hp faultless faultless' s
    rw [compile_eq_ok sound.setting (generation.settled sound) hp faultless,
      compile_eq_ok sound.setting (settled_newGeneration base) hp faultless']
  · intro paths paths' perm admitted distinct faultless faultless'
    have setting := sound.batchSetting admitted
    have all : ∀ p ∈ paths, p ∈ paths ∨ base.Offers p := fun p mem => .inl mem
    have all' : ∀ p ∈ paths', p ∈ paths ∨ base.Offers p := fun p mem => .inl (perm.mem_iff.mpr mem)
    obtain ⟨compiled, failed⟩ := compileAll_compiled setting (settled_newGeneration base) all
      fun p e mem => faultless (p, e) mem
    obtain ⟨compiled', failed'⟩ := compileAll_compiled setting (settled_newGeneration base) all'
      fun p e mem => faultless' (p, e) mem
    constructor
    · intro p
      rw [BatchReport.mem_failing, BatchReport.mem_failing]
      exact (failed p).trans ((and_congr_left' perm.mem_iff).trans (failed' p).symm)
    · have steady := Laying.steady setting distinct
      have laid := (steady.compileAll (laying_newGeneration base) all
        fun p e mem => faultless (p, e) mem).laid
      have laid' := (steady.compileAll (laying_newGeneration base) all'
        fun p e mem => faultless' (p, e) mem).laid
      refine laid.unique laid' fun x s hx => ?_
      refine compiled.settled.known_iff compiled'.settled hx ((compiled.knows_iff all hx).trans
        (Iff.trans ?_ (compiled'.knows_iff all' hx).symm))
      exact and_congr_right' (exists_congr fun p => and_congr_left' perm.mem_iff)

/-! ## A source tree with an import and a cycle -/

/-- Templates `a`, `b` that includes `a`, and `c` that includes itself. -/
def threeTemplates : Workbench where
  session := .start ⟨⟨"/src"⟩, ⟨"/out"⟩⟩ none none false
  files := ⟨[], [(["src"], .directory), (["src", "a.yml"], .file (.text "title: a")),
    (["src", "b.yml"], .file (.text "$IMPORT:\n  type: include\n  path: a")),
    (["src", "c.yml"], .file (.text "$IMPORT:\n  type: include\n  path: c"))]⟩
  log := []

theorem threeTemplates_sound : threeTemplates.Sound ["src"] ["out"] where
  trees := ⟨by decide, by decide, by decide, by decide⟩
  files := .ofEntries (by decide) (by decide)
  root := by decide
  docs _ h := by simp [threeTemplates, Session.start] at h

theorem threeTemplates_offers {p : Path} (h : threeTemplates.Offers p) :
    p ∈ [(⟨"/src/c.yml"⟩ : Path), ⟨"/src/b.yml"⟩, ⟨"/src/a.yml"⟩] := by
  have offered := threeTemplates_sound.toRooted.offered
  obtain ⟨place, contents, -, rfl, -, mem⟩ : ∃ place contents, ValidPlace place ∧ p = pathOf place ∧
      ¬ Inside ["out"] place ∧ (place, .file contents) ∈ threeTemplates.files.entries := by
    rcases h with ⟨raw, directory, exclude, hd, mem⟩ | ⟨relative, found⟩
    · exact offered.variants raw directory exclude hd p mem
    · exact offered.single relative p found
  simp only [threeTemplates, List.mem_cons, Prod.mk.injEq, reduceCtorEq, and_false,
    List.not_mem_nil, or_false, false_or] at mem
  rcases mem with ⟨rfl, -⟩ | ⟨rfl, -⟩ | ⟨rfl, -⟩ <;> decide

theorem threeTemplates_noSharing :
    NoSharing (fun p => p ∈ [(⟨"/src/c.yml"⟩ : Path), ⟨"/src/b.yml"⟩, ⟨"/src/a.yml"⟩] ∨
      threeTemplates.Offers p) threeTemplates.session.layout := by
  have apart : ∀ x ∈ [(⟨"/src/c.yml"⟩ : Path), ⟨"/src/b.yml"⟩, ⟨"/src/a.yml"⟩],
      ∀ y ∈ [(⟨"/src/c.yml"⟩ : Path), ⟨"/src/b.yml"⟩, ⟨"/src/a.yml"⟩],
        (threeTemplates.session.layout.outputFor x).same
          (threeTemplates.session.layout.outputFor y) = true → x = y := by decide +kernel
  intro x y hx hy
  exact apart x (hx.elim id threeTemplates_offers) y (hy.elim id threeTemplates_offers)

/-- What the evaluation of these templates shows: no output fails to be written, `b` compiles and
`c` does not. -/
theorem threeTemplates_facts :
    threeTemplates.session.layout.Faultless
        ((threeTemplates.newGeneration.compile ⟨"/src/c.yml"⟩).2.compile ⟨"/src/b.yml"⟩).1 ∧
      threeTemplates.session.layout.Faultless
        (threeTemplates.newGeneration.compile ⟨"/src/b.yml"⟩).1 ∧
      (threeTemplates.newGeneration.compile ⟨"/src/b.yml"⟩).1.toOption.isSome = true ∧
    (∀ f ∈ (threeTemplates.compileBatch
          [⟨"/src/c.yml"⟩, ⟨"/src/b.yml"⟩, ⟨"/src/a.yml"⟩]).1.failures,
        ¬ threeTemplates.session.layout.OutputFault f.2) ∧
      (∀ f ∈ (threeTemplates.compileBatch
          [⟨"/src/a.yml"⟩, ⟨"/src/b.yml"⟩, ⟨"/src/c.yml"⟩]).1.failures,
        ¬ threeTemplates.session.layout.OutputFault f.2) ∧
      ⟨"/src/c.yml"⟩ ∈ (threeTemplates.compileBatch
          [⟨"/src/c.yml"⟩, ⟨"/src/b.yml"⟩, ⟨"/src/a.yml"⟩]).1.failing := by
  decide +kernel

theorem cache_transparent_threeTemplates :
    threeTemplates.Sound ["src"] ["out"] ∧
      (∃ s, ((threeTemplates.newGeneration.compile ⟨"/src/c.yml"⟩).2.compile ⟨"/src/b.yml"⟩).1 =
        .ok s ∧
        (threeTemplates.newGeneration.compile ⟨"/src/b.yml"⟩).1 = .ok s) ∧
      ⟨"/src/c.yml"⟩ ∈ (threeTemplates.compileBatch
          [⟨"/src/c.yml"⟩, ⟨"/src/b.yml"⟩, ⟨"/src/a.yml"⟩]).1.failing ∧
      (∀ p, p ∈ (threeTemplates.compileBatch
          [⟨"/src/c.yml"⟩, ⟨"/src/b.yml"⟩, ⟨"/src/a.yml"⟩]).1.failing ↔
        p ∈ (threeTemplates.compileBatch
          [⟨"/src/a.yml"⟩, ⟨"/src/b.yml"⟩, ⟨"/src/c.yml"⟩]).1.failing) ∧
      ∀ q, (threeTemplates.compileBatch
          [⟨"/src/c.yml"⟩, ⟨"/src/b.yml"⟩, ⟨"/src/a.yml"⟩]).2.files.entry? q =
        (threeTemplates.compileBatch
          [⟨"/src/a.yml"⟩, ⟨"/src/b.yml"⟩, ⟨"/src/c.yml"⟩]).2.files.entry? q := by
  obtain ⟨calls, batches⟩ := cache_transparent threeTemplates_sound
  have b : Admits ["out"] ⟨"/src/b.yml"⟩ := ⟨["src", "b.yml"], by decide, by decide, by decide⟩
  have c : Admits ["out"] ⟨"/src/c.yml"⟩ := ⟨["src", "c.yml"], by decide, by decide, by decide⟩
  have a : Admits ["out"] ⟨"/src/a.yml"⟩ := ⟨["src", "a.yml"], by decide, by decide, by decide⟩
  obtain ⟨faultless, faultless', compiles, written, written', fails⟩ := threeTemplates_facts
  refine ⟨threeTemplates_sound, ?_, fails, ?_⟩
  · obtain ⟨s, compiles⟩ := exists_ok_of_isSome compiles
    exact ⟨s, (calls _ _ (.compile .start c) b faultless faultless' s).mpr compiles, compiles⟩
  · exact batches _ _ (by decide) (by simp [a, b, c]) threeTemplates_noSharing written written'

/-! ## A template under two spellings -/

/-- A template that says its name, in a directory that another one takes in. -/
def twoSpellings : Workbench where
  session := .start ⟨⟨"/src"⟩, ⟨"/out"⟩⟩ none none false
  files := ⟨[], [(["src"], .directory), (["src", "v"], .directory),
    (["src", "v", "d.yml"], .file (.text "$DONT_EXPORT: true\ndescription: $id")),
    (["src", "p.yml"], .file (.text ("$IMPORT:\n  type: import_contents_as_conditional_array\n" ++
      "  path: v\n  condition: \x7b\x7d")))]⟩
  log := []

/-- A new generation, before any template. -/
@[irreducible]
def spelling : Workbench := twoSpellings.newGeneration

/-- The workbench behind the other template, when the one in the directory was compiled first and
under an unusual spelling. -/
@[irreducible]
def spelledFirst : Workbench := ((spelling.saidId ⟨"/src/v//d.yml"⟩).compile ⟨"/src/p.yml"⟩).2

/-- The workbench on which the template in the directory is compiled for the other one. -/
@[irreducible]
def spellingAsks : Workbench :=
  gatheringAsks (spelling.subject ⟨"/src/p.yml"⟩) ⟨"/src/v"⟩ ⟨"/src/v/d.yml"⟩
    (((spelling.marked ⟨"/src/p.yml"⟩).cleared (spelling.subject ⟨"/src/p.yml"⟩)).recordAll [])

/-- What the other template compiles to on its own. -/
@[irreducible]
def spellingSchema : CompiledSchema :=
  ⟨(spelling.subject ⟨"/src/p.yml"⟩).id, ⟨"/src/p.yml"⟩,
    .object [("allOf", .array [Import.branch (.object []) (saying "v/d")])], true⟩

/-- The workbench behind it. -/
@[irreducible]
def spelledLast : Workbench := reached (keep spellingSchema (spellingAsks.saidId ⟨"/src/v/d.yml"⟩))

/-- What the evaluation of these workbenches shows. -/
theorem spelling_facts :
    ((spelling.files.readTemplate ⟨"/src/v//d.yml"⟩).toOption = some sayingId ∧
      (spelling.files.readTemplate ⟨"/src/v/d.yml"⟩).toOption = some sayingId ∧
      spelling.session.docs.isNone ∧ (spelling.subject ⟨"/src/v//d.yml"⟩).id = "v//d" ∧
      (spelling.subject ⟨"/src/v/d.yml"⟩).id = "v/d" ∧
      ((spelling.saidId ⟨"/src/v//d.yml"⟩).compile ⟨"/src/p.yml"⟩).1.toOption.isSome = true) ∧
    ((spelling.files.readTemplate ⟨"/src/p.yml"⟩).toOption = some gathering ∧
      (spelling.sources.importDirectory "v").toOption = some ⟨"/src/v"⟩ ∧
      spelling.sources.variants ⟨"/src/v"⟩ [] = [⟨"/src/v/d.yml"⟩]) ∧
    ((match spellingAsks.state ⟨"/src/v/d.yml"⟩ with | .unknown => true | _ => false) = true ∧
      (spellingAsks.files.readTemplate ⟨"/src/v/d.yml"⟩).toOption = some sayingId ∧
      (spellingAsks.subject ⟨"/src/v/d.yml"⟩).id = "v/d" ∧ spellingAsks.session.docs.isNone) ∧
    (gatheringImport.table "d").applyJson (.object []) = some (.object []) ∧
    ((gatheringImport.table "d").extend gatheringImport.variableValues).applyJson (saying "v/d") =
        some (saying "v/d") ∧
    (match keep spellingSchema (spellingAsks.saidId ⟨"/src/v/d.yml"⟩) with
      | .ok _ _ => true
      | .error _ _ => false) = true ∧
    (match spelledLast.state ⟨"/src/v//d.yml"⟩ with | .known _ => true | _ => false) = true ∧
    spelledFirst.files.entry? ["out", "p.json"] ≠ spelledLast.files.entry? ["out", "p.json"] := by
  decide +kernel

theorem spelling_unknown (p : Path) : spelling.state p = .unknown := by
  rw [spelling, state_newGeneration]

theorem spelling_compile : ∃ s t, spelling.compile ⟨"/src/v//d.yml"⟩ =
      (.ok s, spelling.saidId ⟨"/src/v//d.yml"⟩) ∧
    (spelling.compile ⟨"/src/v/d.yml"⟩).1 = .ok t ∧
    s.document = saying "v//d" ∧ t.document = saying "v/d" := by
  obtain ⟨⟨read, read', docs, name, name', -⟩, -⟩ := spelling_facts
  have docs := Option.isNone_iff_eq_none.mp docs
  have first := compile_sayingId (spelling_unknown _) (eq_ok_of_toOption read) docs
  have other := compile_sayingId (spelling_unknown _) (eq_ok_of_toOption read') docs
  exact ⟨_, _, first, congrArg Prod.fst other, congrArg saying name, congrArg saying name'⟩

theorem spelling_first :
    spelling.compileAll [⟨"/src/v//d.yml"⟩, ⟨"/src/p.yml"⟩] = ([], spelledFirst) := by
  obtain ⟨⟨read, -, docs, -, -, compiled⟩, -⟩ := spelling_facts
  obtain ⟨t, compiled⟩ := exists_ok_of_isSome compiled
  apply compileAll_sayingId (spelling_unknown _) (eq_ok_of_toOption read)
    (Option.isNone_iff_eq_none.mp docs)
  exact Prod.ext compiled (by unfold spelledFirst; rfl)

theorem spelling_last :
    spelling.compileAll [⟨"/src/p.yml"⟩, ⟨"/src/v//d.yml"⟩] = ([], spelledLast) := by
  obtain ⟨-, ⟨read, found, lists⟩, ⟨unknown, read', name, docs⟩, facts⟩ := spelling_facts
  obtain ⟨condition, same, kept, stored, -⟩ := facts
  obtain ⟨s, known⟩ := known_of_match stored
  have run : keep spellingSchema (spellingAsks.saidId ⟨"/src/v/d.yml"⟩) = .ok ⟨⟩ spelledLast := by
    cases hk : keep spellingSchema (spellingAsks.saidId ⟨"/src/v/d.yml"⟩) with
    | error e v => simp [hk] at kept
    | ok done v => rw [spelledLast, hk, reached_ok]
  rw [spellingSchema] at run
  have first := compile_gathering spellingAsks.eq_1.symm (spelling_unknown _)
    (eq_ok_of_toOption read) (eq_ok_of_toOption found) lists (unknown_of_match unknown)
    (eq_ok_of_toOption read') name (Option.isNone_iff_eq_none.mp docs) condition same run
  rw [Workbench.compileAll_of_ok first, Workbench.compileAll_of_ok (compile_of_known known),
    Workbench.compileAll]

/-- Under its canonical path the template compiles to another document, once it was compiled under
the other spelling of that path. What takes it in is written with the one or with the other, as the
order of the batch has it. -/
theorem cache_transparent_otherSpelling :
    twoSpellings.Sound ["src"] ["out"] ∧
    Path.LeadsTo ⟨"/src/v//d.yml"⟩ ["src", "v", "d.yml"] ∧
    (∃ v s t, twoSpellings.newGeneration.compile ⟨"/src/v//d.yml"⟩ = (.ok s, v) ∧
      (v.compile ⟨"/src/v/d.yml"⟩).1 = .ok s ∧
      (twoSpellings.newGeneration.compile ⟨"/src/v/d.yml"⟩).1 = .ok t ∧
      s.document = saying "v//d" ∧ t.document = saying "v/d") ∧
    NoSharing (· ∈ [(⟨"/src/p.yml"⟩ : Path), ⟨"/src/v/d.yml"⟩]) twoSpellings.session.layout ∧
    (twoSpellings.compileBatch [⟨"/src/v//d.yml"⟩, ⟨"/src/p.yml"⟩]).1.failures = [] ∧
    (twoSpellings.compileBatch [⟨"/src/p.yml"⟩, ⟨"/src/v//d.yml"⟩]).1.failures = [] ∧
    (twoSpellings.compileBatch [⟨"/src/v//d.yml"⟩, ⟨"/src/p.yml"⟩]).2.files.entry?
      ["out", "p.json"] ≠
      (twoSpellings.compileBatch [⟨"/src/p.yml"⟩, ⟨"/src/v//d.yml"⟩]).2.files.entry?
        ["out", "p.json"] := by
  have sound : twoSpellings.Sound ["src"] ["out"] :=
    ⟨⟨⟨by decide, by decide, by decide, by decide⟩, .ofEntries (by decide) (by decide), by decide⟩,
      fun _ h => by simp [twoSpellings, Session.start] at h⟩
  obtain ⟨s, t, first, other, said, said'⟩ := spelling_compile
  have known : (spelling.saidId ⟨"/src/v//d.yml"⟩).state ⟨"/src/v//d.yml"⟩ = .known s := by
    have known := compile_known (congrArg Prod.fst first)
    rwa [first] at known
  have same : Path.same ⟨"/src/v/d.yml"⟩ ⟨"/src/v//d.yml"⟩ = true := by decide +kernel
  have again := compile_of_known ((Cache.state_congr same).trans known)
  have new : spelling = twoSpellings.newGeneration := by rw [spelling]
  have batch := Workbench.compileBatch_of_run (new ▸ spelling_first)
  have batch' := Workbench.compileBatch_of_run (new ▸ spelling_last)
  have apart : ∀ x ∈ [(⟨"/src/p.yml"⟩ : Path), ⟨"/src/v/d.yml"⟩],
      ∀ y ∈ [(⟨"/src/p.yml"⟩ : Path), ⟨"/src/v/d.yml"⟩],
        (twoSpellings.session.layout.outputFor x).same
          (twoSpellings.session.layout.outputFor y) = true → x = y := by decide +kernel
  rw [batch, batch', ← new]
  obtain ⟨-, -, -, -, -, -, -, differs⟩ := spelling_facts
  exact ⟨sound, by decide, ⟨_, s, t, first, congrArg Prod.fst again, other, said, said'⟩,
    fun x y hx hy => apart x hx y hy, rfl, rfl, differs⟩

end SchemaLoom
