import SchemaLoom.Proofs.Session.Outputs
import SchemaLoom.Proofs.Session.Pages
import SchemaLoom.Proofs.Session.Reports
import SchemaLoom.Proofs.Session.Termination

/-!
# The same templates compiled again

When templates are compiled again on the files that compiling them has left, everything takes its
course as before: nothing that a compilation looks at has changed, what could be written the first
time is there and can be written again, and what could not be written still cannot. Both runs are
followed side by side. At every moment a file of the second run is what it will be in the end, or
what it is in the first run.
-/

namespace SchemaLoom

open SchemaLoom.Path Compile FileSystem

variable {S T : Place} {base again w v u : Workbench} {p x : Path} {s : CompiledSchema}
  {paths : List Path}

/-! ## Files of the second run -/

/-- The files `fs'` of a second run lie between those of the first run, `fs`, and those that the
first run ends with, `final`. -/
structure FileSystem.Between (final fs fs' : FileSystem) : Prop where
  later : Smaller fs fs'
  within : Smaller fs' final
  same : ∀ q, fs'.entry? q = final.entry? q ∨ fs'.entry? q = fs.entry? q

/-- Every entry comes to be the same in both runs, or neither of them touches it. -/
def FileSystem.Alongside (fs fs' gs gs' : FileSystem) : Prop :=
  ∀ q, gs'.entry? q = gs.entry? q ∨ gs.entry? q = fs.entry? q ∧ gs'.entry? q = fs'.entry? q

namespace FileSystem

variable {final fs fs' gs gs' : FileSystem} {place ns : Place} {text : String}

theorem Between.step (h : Between final fs fs') (ahead : Smaller gs final)
    (moves : Alongside fs fs' gs gs') : Between final gs gs' where
  later := by
    refine ⟨fun q hd => ?_, fun q c hf => ?_⟩
    · rcases moves q with same | ⟨left, right⟩
      · rw [same, hd]
      · rw [right]
        exact h.later.directory q (left ▸ hd)
    · rcases moves q with same | ⟨left, right⟩
      · exact ⟨c, by rw [same, hf]⟩
      · rw [right]
        exact h.later.file q c (left ▸ hf)
  within := by
    refine ⟨fun q hd => ?_, fun q c hf => ?_⟩
    · rcases moves q with same | ⟨-, right⟩
      · exact ahead.directory q (same ▸ hd)
      · exact h.within.directory q (right ▸ hd)
    · rcases moves q with same | ⟨-, right⟩
      · exact ahead.file q c (same ▸ hf)
      · exact h.within.file q c (right ▸ hf)
  same q := by
    rcases moves q with same | ⟨left, right⟩
    · exact .inr same
    · rw [left, right]
      exact h.same q

theorem Prepared.alongside (left : Prepared ns fs gs) (right : Prepared ns fs' gs') :
    Alongside fs fs' gs gs' := by
  intro q
  by_cases above : q <+: ns
  · exact .inl ((right.directories q above).trans (left.directories q above).symm)
  · exact .inr ⟨left.kept q above, right.kept q above⟩

theorem Written.alongside (left : Written place text fs gs) (right : Written place text fs' gs') :
    Alongside fs fs' gs gs' := by
  intro q
  by_cases above : q <+: place
  · by_cases here : q = place
    · exact .inl (here ▸ right.file.trans left.file.symm)
    · exact .inl ((right.directories q above here).trans (left.directories q above here).symm)
  · exact .inr ⟨left.kept q above, right.kept q above⟩

end FileSystem

/-! ## Two runs with the same outcome -/

namespace Compile

variable {α β : Type} {R R' : Workbench → Workbench → Prop}
  {r r' : EStateM.Result BuildError Workbench α}

/-- Both runs succeed with the same result or both fail, on workbenches related by `R`. -/
inductive Paired (R : Workbench → Workbench → Prop) :
    EStateM.Result BuildError Workbench α → EStateM.Result BuildError Workbench α → Prop where
  | ok {w v : Workbench} (a : α) : R w v → Paired R (.ok a w) (.ok a v)
  | error {w v : Workbench} {e e' : BuildError} : R w v → Paired R (.error e w) (.error e' v)

theorem Paired.imp (h : Paired R r r')
    (weaker : R (reached r) (reached r') → R' (reached r) (reached r')) : Paired R' r r' := by
  cases h with
  | ok a related => exact .ok a (weaker related)
  | error related => exact .error (weaker related)

theorem Paired.reached (h : Paired R r r') : R (reached r) (reached r') := by
  cases h with
  | ok _ related => exact related
  | error related => exact related

/-- A document is written in both runs or in neither. -/
theorem Wrote.paired {final : FileSystem} {ns : Place} {c : Component}
    {r r' : EStateM.Result BuildError Workbench PUnit} (left : Wrote w s r) (right : Wrote v s r')
    (output : v.outputOf s = w.outputOf s) (text : v.textOf s = w.textOf s)
    (hc : (w.outputOf s).components = .root :: ns.map .name ++ [c])
    (hend : c = .up ∨ ∃ t, c = .name t) (between : Between final w.files v.files)
    (ahead : Smaller (reached r).files final) :
    Paired (fun w v => Between final w.files v.files) r r' := by
  have absolute : (w.outputOf s).isAbsolute = true := isAbsolute_iff_components.mpr ⟨_, hc⟩
  obtain ⟨parent, hp, -⟩ := parent?_leadsTo hc
  cases left with
  | @noDirectory q cause w' hq quiet failed =>
    obtain rfl := Option.some.inj (hp.symm.trans hq)
    have stuck : ∀ {files}, ¬ Ready v.files (w.outputOf s) files := by
      intro files ready
      obtain ⟨made, run⟩ := ready.makeDirectories (.refl _)
        (between.later.trans ready.grown.smaller) absolute hp
      simp [run] at failed
    cases right with
    | @noDirectory _ _ v' _ quiet' _ =>
      refine .error ?_
      rw [quiet.1, quiet'.1]
      exact between
    | noFile _ ready _ _ => exact absurd (output ▸ ready) stuck
    | written ready _ _ => exact absurd (output ▸ ready) stuck
  | @noFile cause w' files ready quiet failed =>
    have refused := (Wrote.noFile cause ready quiet failed).refused
    cases right with
    | @noDirectory q cause' v' hq quiet' failed' =>
      rw [output] at hq
      obtain rfl := Option.some.inj (hp.symm.trans hq)
      -- The directories of the first run are there in the end, so they can be made in the second.
      obtain ⟨made, run⟩ := ready.makeDirectories ahead between.within absolute hp
      simp [run] at failed'
    | @noFile cause' v' files' ready' quiet' failed' =>
      rw [output] at ready'
      exact .error (between.step ahead ((ready.prepared hc).alongside (ready'.prepared hc)))
    | @written v' files' files'' ready' quiet' done' =>
      rw [output] at ready' done'
      obtain ⟨place', -, found'⟩ := find_writeFile absolute done'
      exact absurd (accepts_of_file (between.later.trans
        (ready'.grown.trans (writeFile_grown done')).smaller) absolute found') refused
  | @written w' files gs ready quiet done =>
    obtain ⟨place, -, found⟩ := find_writeFile absolute done
    obtain ⟨contents, found⟩ := ahead.find_file absolute found
    have accepted : v.files.Accepts (v.outputOf s) := by
      rw [output]
      exact accepts_of_file between.within absolute found
    cases right with
    | noDirectory cause hq quiet' failed' =>
      exact absurd accepted (Wrote.noDirectory cause hq quiet' failed').refused
    | noFile cause ready' quiet' failed' =>
      exact absurd accepted (Wrote.noFile cause ready' quiet' failed').refused
    | @written v' files' gs' ready' quiet' done' =>
      rw [output] at ready' done'
      rw [text] at done'
      rcases hend with rfl | ⟨t, rfl⟩
      · exact absurd done (writeFile_up hc)
      · have hl : (w.outputOf s).LeadsTo (ns ++ [t]) := by simpa [LeadsTo] using hc
        exact .ok _ (between.step ahead ((written_of_ready hl ready done).alongside
          (written_of_ready hl ready' done')))

end Compile

/-! ## What the second run keeps -/

/-- Two workbenches on which a compilation looks at the same and reads the same templates. -/
structure Twins (S T : Place) (base again : Workbench) : Prop where
  sound : base.Sound S T
  sound' : again.Sound S T
  view : SameView base again
  isPretty : again.session.isPretty = base.session.isPretty
  read : ∀ p, Admits T p → ∀ document,
    again.files.readTemplate p = .ok document ↔ base.files.readTemplate p = .ok document

/-- The second run, on `v`, is where the first one, which ends with the files `final`, is on `w`. -/
structure Repeats (T : Place) (base again : Workbench) (final : FileSystem) (w v : Workbench) :
    Prop where
  left : Unchanged T base w
  right : Unchanged T again v
  cache : v.session.cache = w.session.cache
  between : Between final w.files v.files

namespace Repeats

variable {final : FileSystem} {w' v' : Workbench}

theorem unwritten (h : Repeats T base again final w v) (left : Unchanged T base w')
    (right : Unchanged T again v') (cache : v'.session.cache = w'.session.cache)
    (files : w'.files = w.files) (files' : v'.files = v.files) :
    Repeats T base again final w' v' :=
  ⟨left, right, cache, files ▸ files' ▸ h.between⟩

theorem quiet (h : Repeats T base again final w v) (hw : Quiet w w') (hv : Quiet v v') :
    Repeats T base again final w' v' := by
  refine h.unwritten (h.left.quiet hw) (h.right.quiet hv) ?_ hw.1 hv.1
  obtain ⟨-, diagnostics, left⟩ := hw
  obtain ⟨-, diagnostics', right⟩ := hv
  rw [left, right]
  exact h.cache

theorem state (h : Repeats T base again final w v) (x : Path) : v.state x = w.state x := by
  simp [Workbench.state, h.cache]

theorem marked (h : Repeats T base again final w v) (p : Path) :
    Repeats T base again final (w.marked p) (v.marked p) :=
  h.unwritten (h.left.modifySession rfl rfl rfl rfl) (h.right.modifySession rfl rfl rfl rfl)
    (congrArg (Cache.begin_ · p) h.cache) rfl rfl

theorem unmarked (h : Repeats T base again final w v) (p : Path) :
    Repeats T base again final (w.unmarked p) (v.unmarked p) :=
  h.unwritten (h.left.modifySession rfl rfl rfl rfl) (h.right.modifySession rfl rfl rfl rfl)
    (congrArg (Cache.abandon · p) h.cache) rfl rfl

theorem forgotten (h : Repeats T base again final w v) (p : Path) :
    Repeats T base again final (w.forgotten p) (v.forgotten p) :=
  h.unwritten (h.left.modifySession rfl rfl rfl rfl) (h.right.modifySession rfl rfl rfl rfl)
    h.cache rfl rfl

theorem linked (h : Repeats T base again final w v) (p d : Path) :
    Repeats T base again final (w.linked p d) (v.linked p d) :=
  h.unwritten (h.left.modifySession rfl rfl rfl rfl) (h.right.modifySession rfl rfl rfl rfl)
    h.cache rfl rfl

theorem finished (h : Repeats T base again final w v) (s : CompiledSchema) :
    Repeats T base again final (w.finished s) (v.finished s) :=
  h.unwritten (h.left.modifySession rfl rfl rfl rfl) (h.right.modifySession rfl rfl rfl rfl)
    (congrArg (Cache.finish · s) h.cache) rfl rfl

end Repeats

/-! ## Following both runs -/

section Runs

variable {final : FileSystem} {α : Type} {subject : Subject} {n : Nat}

theorem later_within (n : Nat) (p : Path) (w : Workbench) : Later w (reached (within n p w)) :=
  (Later.steady w).reached n (P := []) trivial (.refl w)

namespace Twins

variable (twins : Twins S T base again)
include twins

theorem finds (h : Unchanged T base w) : Finds (Admits T) w :=
  (twins.sound.of_unchanged h).finds

theorem sameView (h : Repeats T base again final w v) : SameView w v :=
  (twins.sound.sameView h.left).symm.trans (twins.view.trans (twins.sound'.sameView h.right))

theorem keep (h : Repeats T base again final w v) (hp : Admits T s.source) {document : Json}
    (read : base.files.readTemplate s.source = .ok document)
    (ahead : Smaller (reached (Compile.keep s w)).files final) :
    Paired (Repeats T base again final) (Compile.keep s w) (Compile.keep s v) := by
  have stored := h.finished s
  have read' := (twins.read s.source hp document).mpr read
  have view := twins.sameView stored
  rw [keep_run] at ahead
  rw [keep_run, keep_run]
  by_cases exported : s.isExported = true
  · rw [if_pos exported] at ahead
    rw [if_pos exported, if_pos exported]
    have wrote := write_run s (w.finished s)
    have wrote' := write_run s (v.finished s)
    have output : (w.finished s).outputOf s = base.session.layout.outputFor s.source := by
      rw [Workbench.outputOf, stored.left.layout]
    obtain ⟨a, c, hc, hend⟩ := twins.sound.toRooted.output hp read
    rw [← output] at hc
    have same : (v.finished s).outputOf s = (w.finished s).outputOf s := by
      rw [Workbench.outputOf, Workbench.outputOf, view.layout]
    have text : (v.finished s).textOf s = (w.finished s).textOf s := by
      refine view.textOf ?_ s
      rw [stored.right.isPretty, twins.isPretty, stored.left.isPretty]
    refine (wrote.paired wrote' same text hc hend stored.between ahead).imp fun between =>
      ⟨(twins.sound.toRooted.wrote stored.left hp read wrote).1,
        (twins.sound'.toRooted.wrote stored.right hp read' wrote').1, ?_, between⟩
    obtain ⟨diagnostics, written, session⟩ := wrote.session
    obtain ⟨diagnostics', written', session'⟩ := wrote'.session
    rw [session, session']
    exact stored.cache
  · rw [if_neg exported, if_neg exported]
    exact .ok _ stored

theorem kept {x : (Path → Compile CompiledSchema) → Compile α} {Q : α → Prop}
    (h : Uniform SameView (Admits T) subject x Q) (hw : Unchanged T base w) :
    Kept (fun v => Unchanged T base v ∧ Later w v) (fun _ => False) Q (x (within n) w) := by
  refine h.kept (fun v hv => twins.finds hv.1)
    (fun v u hv hq => ⟨hv.1.quiet hq, hv.2.trans (.quiet hq)⟩) (fun d hd v hv => ?_) w ⟨hw, .refl w⟩
  rw [dependency_run, kept_iff_reached]
  have linked : Unchanged T base (v.linked subject.source d) :=
    hv.1.modifySession rfl rfl rfl rfl
  have later : Later v (v.linked subject.source d) := ⟨rfl, rfl, .refl⟩
  exact ⟨(twins.sound.toRooted.steady (fun _ => id) twins.sound.finds).reached n
    (P := []) hd linked,
    hv.2.trans (later.trans (later_within n d (v.linked subject.source d)))⟩

/-- If every request takes its course as before then so does an expansion. -/
theorem expansion {x : (Path → Compile CompiledSchema) → Compile α} {Q : α → Prop}
    (calls : ∀ d w v, Admits T d → Repeats T base again final w v →
      Smaller (reached (within n d w)).files final →
        Paired (Repeats T base again final) (within n d w) (within n d v))
    (h : Uniform SameView (Admits T) subject x Q) : ∀ {w v : Workbench},
      Repeats T base again final w v → Smaller (reached (x (within n) w)).files final →
        Paired (Repeats T base again final) (x (within n) w) (x (within n) v) := by
  induction h with
  | pure a _ => exact fun related _ => .ok a related
  | throw id fault => exact fun related _ => .error related
  | look same _ ih =>
    intro w v related ahead
    dsimp only at ahead ⊢
    rw [get_bind_run] at ahead
    rw [get_bind_run, get_bind_run, ← same w v (twins.sameView related)]
    exact ih w (twins.finds related.left) related ahead
  | note g quiet => exact fun {w v} related _ => .ok _ (related.quiet (quiet w) (quiet v))
  | call d hd =>
    intro w v related ahead
    exact calls d _ _ hd (related.linked _ d) ahead
  | @bind _ _ _ _ x f hx hf ihx ihf =>
    intro w v related ahead
    have first := twins.kept (n := n) hx related.left
    dsimp only at ahead ⊢
    rw [bind_run] at ahead
    rw [bind_run, bind_run]
    cases run : x (within n) w with
    | error e u =>
      rw [run] at ahead
      have paired := ihx related (by rw [run]; exact ahead)
      rw [run] at paired
      generalize x (within n) v = r at paired ⊢
      cases paired with
      | error related => exact .error related
    | ok a u =>
      rw [run] at ahead first
      obtain ⟨ha, hu, -⟩ := first
      -- What is written behind `u` is there in the end, and so is what was written up to it.
      have rest : Later u (reached (f a (within n) u)) :=
        (reached_of_kept (twins.kept (n := n) (hf a ha) hu)).2
      have paired := ihx related (by rw [run]; exact rest.files.smaller.trans ahead)
      rw [run] at paired
      generalize x (within n) v = r at paired ⊢
      cases paired with
      | ok _ related => exact ihf a ha related ahead

theorem fresh
    (calls : ∀ d w v, Admits T d → Repeats T base again final w v →
      Smaller (reached (within n d w)).files final →
        Paired (Repeats T base again final) (within n d w) (within n d v))
    (hp : Admits T subject.source) (h : Repeats T base again final w v)
    (ahead : Smaller (reached (Compile.fresh (within n) subject w)).files final) :
    Paired (Repeats T base again final) (Compile.fresh (within n) subject w)
      (Compile.fresh (within n) subject v) := by
  have same : ∀ document, v.files.readTemplate subject.source = .ok document ↔
      w.files.readTemplate subject.source = .ok document := fun document => by
    rw [twins.sound'.toRooted.readTemplate h.right hp, twins.read _ hp document,
      twins.sound.toRooted.readTemplate h.left hp]
  rw [fresh_run] at ahead
  rw [fresh_run, fresh_run]
  cases read : w.files.readTemplate subject.source with
  | error e =>
    cases read' : v.files.readTemplate subject.source with
    | ok document => simp [(same document).mp read'] at read
    | error e' => exact .error (h.quiet (quiet_say w _ _) (quiet_say v _ _))
  | ok document =>
    rw [read] at ahead
    rw [(same document).mpr read]
    simp only at ahead ⊢
    have cleared : Repeats T base again final (w.cleared subject) (v.cleared subject) :=
      (h.quiet (quiet_say w _ _) (quiet_say v _ _)).forgotten _
    have expands := twins.expansion calls (Uniform.expanded subject document) cleared
    cases run : expanded (within n) subject document (w.cleared subject) with
    | error e u =>
      rw [run] at ahead expands
      have paired := expands ahead
      generalize expanded (within n) subject document (v.cleared subject) = r at paired ⊢
      cases paired with
      | error related => exact .error related
    | ok s u =>
      rw [run] at ahead expands
      have source : s.source = subject.source := expanded_source run
      have ahead : Smaller (reached (Compile.keep s u)).files final := by
        simp only at ahead
        revert ahead
        cases Compile.keep s u <;> exact id
      have paired := expands ((Later.keep u s).files.smaller.trans ahead)
      generalize expanded (within n) subject document (v.cleared subject) = r at paired ⊢
      cases paired with
      | @ok _ u' _ related =>
        have input := (twins.sound.toRooted.readTemplate h.left hp).mp read
        rw [← source] at hp input
        have kept := twins.keep related hp input ahead
        simp only
        generalize Compile.keep s u = first at kept ⊢
        generalize Compile.keep s u' = second at kept ⊢
        cases kept with
        | ok _ related => exact .ok s related
        | error related => exact .error related

theorem within (n : Nat) (hp : Admits T p) (h : Repeats T base again final w v)
    (ahead : Smaller (reached (Compile.within n p w)).files final) :
    Paired (Repeats T base again final) (Compile.within n p w) (Compile.within n p v) := by
  induction n generalizing p w v with
  | zero => exact .error h
  | succ n ih =>
    have subject : v.subject p = w.subject p := by
      rw [Workbench.subject, Workbench.subject, (twins.sameView h).layout]
    rw [within_succ_run] at ahead
    rw [within_succ_run, within_succ_run, h.state p]
    cases state : w.state p with
    | known t => exact .ok t h
    | cycle => exact .error h
    | unknown =>
      simp only [state] at ahead
      simp only [subject]
      have admitted : Admits T (w.subject p).source := hp
      have marked := twins.fresh (fun d w v hd => ih hd) admitted (h.marked p)
      cases run : Compile.fresh (Compile.within n) (w.subject p) (w.marked p) with
      | error e u =>
        rw [run] at ahead marked
        have paired := marked ahead
        generalize Compile.fresh (Compile.within n) (w.subject p) (v.marked p) = r at paired ⊢
        cases paired with
        | error related => exact .error (related.unmarked p)
      | ok t u =>
        rw [run] at ahead marked
        have paired := marked ahead
        generalize Compile.fresh (Compile.within n) (w.subject p) (v.marked p) = r at paired ⊢
        cases paired with
        | ok _ related => exact .ok t related

theorem next (hp : Admits T p) (h : Repeats T base again final w v)
    (idle : ∀ x, w.state x ≠ .cycle) (ahead : Smaller (w.next p).files final) :
    Repeats T base again final (w.next p) (v.next p) := by
  -- The bound on the chain of imports counts files, of which the second run may have more.
  have left := (twins.sound.of_unchanged h.left).within_eq idle
    (Nat.le_max_left (w.files.fileCount + 2) (v.files.fileCount + 2)) p
  have right := (twins.sound'.of_unchanged h.right).within_eq
    (fun x => (h.state x).trans_ne (idle x))
    (Nat.le_max_right (w.files.fileCount + 2) (v.files.fileCount + 2)) p
  rw [(quiet_next w p).1, compile_reached, ← left] at ahead
  have compiled := (twins.within _ hp h ahead).reached
  rw [left, right, ← compile_reached, ← compile_reached] at compiled
  exact compiled.quiet (quiet_next w p) (quiet_next v p)

theorem compileAll (admitted : ∀ p ∈ paths, Admits T p) (h : Repeats T base again final w v)
    (idle : ∀ x, w.state x ≠ .cycle) (ahead : Smaller (w.compileAll paths).2.files final) :
    Repeats T base again final (w.compileAll paths).2 (v.compileAll paths).2 := by
  induction paths generalizing w v with
  | nil => exact h
  | cons p paths ih =>
    rw [compileAll_cons] at ahead
    rw [compileAll_cons, compileAll_cons]
    have rest : Later (w.next p) ((w.next p).compileAll paths).2 :=
      (Later.steady (w.next p)).compileAll (.refl _) (fun _ _ => trivial) fun _ _ _ => id
    have first := twins.next (admitted p List.mem_cons_self) h idle
      (rest.files.smaller.trans ahead)
    refine ih (fun q mem => admitted q (List.mem_cons_of_mem p mem)) first (fun x => ?_) ahead
    rw [state_quiet (quiet_next w p), compile_reached]
    exact within_idle idle _ p x

theorem compileBatch (admitted : ∀ p ∈ paths, Admits T p)
    (between : Between (base.compileBatch paths).2.files base.files again.files) (q : Place) :
    (again.compileBatch paths).2.files.entry? q = (base.compileBatch paths).2.files.entry? q := by
  have start : Repeats T base again (base.compileBatch paths).2.files base.newGeneration
      again.newGeneration :=
    ⟨(Unchanged.refl base).modifySession rfl rfl rfl rfl,
      (Unchanged.refl again).modifySession rfl rfl rfl rfl, rfl, between⟩
  have ends := twins.compileAll admitted start
    (fun x => by simp [Workbench.state, Workbench.newGeneration, Workbench.modifySession])
    (Smaller.refl _)
  exact (ends.between.same q).elim id id

end Twins

end Runs

end SchemaLoom
