import SchemaLoom.Proofs.Expansion.Deferred
import SchemaLoom.Proofs.Expansion.Found
import SchemaLoom.Proofs.FileSystem.Writing
import SchemaLoom.Proofs.Session.Steady
import SchemaLoom.Proofs.Template

/-!
# No import loses its layer

Pending calls stand where they were found. So an import never misses the layer it is executed on or
the array that holds it, in no run on no template. It fails only for what it finds in its arguments,
in the source tree and in the registry, or for an array that its layer should hold and does not.
-/

namespace SchemaLoom

/-- The layer of the import is no object any more, or is not in its array any more. -/
def ImportFault.LosesLayer (fault : ImportFault) : Prop :=
  fault = .spliceTarget .layerGone ∨ fault = .spliceTarget .slotGone

def BuildError.LosesLayer (e : BuildError) : Prop :=
  ∃ id fault, e = .importing id fault ∧ fault.LosesLayer

/-- The result is no fault that loses a layer. -/
def ImportFault.Spared {α : Type} (result : Except ImportFault α) : Prop :=
  ∀ fault, result = .error fault → ¬ fault.LosesLayer

namespace Compile

/-- No run fails with a lost layer. -/
def Spares {α : Type} (x : Compile α) : Prop :=
  ∀ w e v, x w = .error e v → ¬ e.LosesLayer

variable {α β γ : Type} {x : Compile α}

theorem spares_pure (a : α) : Spares (pure a : Compile α) := fun _ _ _ h => by cases h

theorem spares_get : Spares (get : Compile Workbench) := fun _ _ _ h => by cases h

theorem spares_modify (f : Workbench → Workbench) : Spares (modify f : Compile PUnit) :=
  fun _ _ _ h => by cases h

theorem spares_throw {e : BuildError} (h : ¬ e.LosesLayer) : Spares (throw e : Compile α) :=
  fun _ _ _ run => by cases run; exact h

theorem Spares.bind {f : α → Compile β} (first : Spares x) (rest : ∀ a, Spares (f a)) :
    Spares (x >>= f) := by
  intro w e v run
  rw [bind_run] at run
  cases hx : x w with
  | ok a u =>
    rw [hx] at run
    exact rest a u e v run
  | error e' u =>
    rw [hx] at run
    cases run
    exact first w _ _ hx

theorem Spares.discard (h : Spares x) : Spares (discard x) := by
  rw [discard_eq]
  exact h.bind fun _ => spares_pure _

theorem spares_ofImport {id : String} {result : Except ImportFault α}
    (h : ImportFault.Spared result) : Spares (ofImport id result) := by
  intro w e v run
  cases result with
  | ok a => cases run
  | error fault =>
    cases run
    rintro ⟨_, _, ⟨⟩, lost⟩
    exact h fault rfl lost

theorem spares_mapM {f : α → Compile β} (h : ∀ a, Spares (f a)) (list : List α) :
    Spares (list.mapM f) := by
  induction list with
  | nil => exact spares_pure _
  | cons a list ih =>
    rw [List.mapM_cons]
    exact (h a).bind fun _ => ih.bind fun _ => spares_pure _

theorem spares_forM {f : α → Compile PUnit} (h : ∀ a, Spares (f a)) (list : List α) :
    Spares (list.forM f) := by
  induction list with
  | nil => exact spares_pure _
  | cons a list ih => exact (h a).bind fun _ => ih

theorem spares_foldlM {f : β → α → Compile β} (h : ∀ b a, Spares (f b a)) (list : List α) (b : β) :
    Spares (list.foldlM f b) := by
  induction list generalizing b with
  | nil => exact spares_pure _
  | cons a list ih =>
    rw [List.foldlM_cons]
    exact (h b a).bind fun b => ih b

end Compile

/-! ## What an import looks for -/

theorem ImportFault.spared_ok {α : Type} (a : α) : Spared (.ok a) := fun _ h => by cases h

theorem ImportFault.spared_error {α : Type} {fault : ImportFault}
    (other : ∀ target, fault ≠ .spliceTarget target) : Spared (.error fault : Except _ α) := by
  rintro _ ⟨⟩ (lost | lost) <;> exact other _ lost

theorem ImportFault.Spared.bind {α β : Type} {result : Except ImportFault α}
    {f : α → Except ImportFault β} (first : Spared result) (rest : ∀ a, Spared (f a)) :
    Spared (result >>= f) := by
  cases result with
  | error fault => exact fun _ h => first _ (by cases h; rfl)
  | ok a => exact rest a

open ImportFault (Spared spared_ok spared_error)

theorem ImportDirective.parse_spared (arguments : Json) : Spared (parse arguments) := by
  unfold parse
  repeat' split
  all_goals first
    | exact spared_ok _
    | exact spared_error fun _ h => by cases h

theorem ImportDirective.parseList_spared (list : List Json) : Spared (parseList list) := by
  induction list with
  | nil => exact spared_ok _
  | cons v list ih =>
    have steps : parseList (v :: list) =
        parse v >>= fun d => parseList list >>= fun ds => .ok (d :: ds) := by
      rw [parseList]
      cases parse v with
      | error _ => rfl
      | ok _ => cases parseList list <;> rfl
    rw [steps]
    exact (parse_spared v).bind fun _ => ih.bind fun _ => spared_ok _

theorem ImportDirective.parseAll_spared (arguments : Json) : Spared (parseAll arguments) := by
  cases arguments <;> exact parseList_spared _

theorem Sources.importDirectory_spared (s : Sources) (raw : String) :
    Spared (s.importDirectory raw) := by
  unfold importDirectory
  repeat' split
  all_goals first
    | exact spared_ok _
    | exact spared_error fun _ h => by cases h

theorem Sources.referenceTo_spared (s : Sources) (file : Path) : Spared (s.referenceTo file) := by
  unfold referenceTo
  split
  · exact spared_ok _
  · exact spared_error fun _ h => by cases h

theorem Import.substitute_spared (part item : String) (table : Substitution) (v : Json) :
    Spared (substitute part item table v) := by
  unfold substitute
  split
  · exact spared_ok _
  · exact spared_error fun _ h => by cases h

theorem Import.structures_spared (a : Items) (items : List String) :
    Spared (a.structures items) := by
  unfold Items.structures
  generalize items.filter (fun item => !a.exclude.contains item) = items
  induction items with
  | nil => exact spared_ok _
  | cons item items ih =>
    rw [List.mapM_cons]
    exact (substitute_spared _ _ _ _).bind fun _ => ih.bind fun _ => spared_ok _

namespace Compile

variable {compile : Path → Compile CompiledSchema} {subject : Subject}

theorem spares_session : Spares session := spares_get.bind fun _ => spares_pure _

theorem spares_sources : Spares sources := spares_get.bind fun _ => spares_pure _

theorem spares_dependency (compiles : ∀ p, Spares (compile p)) (importer imported : Path) :
    Spares (dependency compile importer imported) :=
  (spares_modify _).bind fun _ => compiles imported

theorem spares_listVariants (raw : String) (exclude : List String) :
    Spares (listVariants subject raw exclude) :=
  spares_sources.bind fun s =>
    (spares_ofImport (s.importDirectory_spared raw)).bind fun _ => spares_pure _

theorem spares_sayVariants (what : String) (directory : Path) (noun : String) (count : Nat) :
    Spares (sayVariants subject what directory noun count) :=
  spares_session.bind fun _ => spares_modify _

theorem spares_consequence (contents : Bool) (a : Import.Conditional) (variant : Path)
    (compiled : CompiledSchema) : Spares (consequence subject contents a variant compiled) := by
  unfold consequence
  split
  · exact spares_ofImport (Import.substitute_spared _ _ _ _)
  · exact spares_sources.bind fun s =>
      (spares_ofImport (s.referenceTo_spared variant)).bind fun _ => spares_pure _

theorem spares_conditionalBranches (compiles : ∀ p, Spares (compile p)) (contents : Bool)
    (a : Import.Conditional) : Spares (conditionalBranches compile subject contents a) :=
  (spares_listVariants _ _).bind fun _ => (spares_sayVariants _ _ _ _).bind fun _ =>
    spares_mapM (fun variant => (spares_ofImport (Import.substitute_spared _ _ _ _)).bind fun _ =>
      (spares_dependency compiles _ _).bind fun compiled =>
        (spares_consequence contents a variant compiled).bind fun _ => spares_pure _) _

theorem spares_registryItems (a : Import.Items) : Spares (registryItems subject a) := by
  refine spares_session.bind fun s => ?_
  split
  · refine spares_throw ?_
    rintro ⟨_, _, ⟨⟩, lost | lost⟩ <;> cases lost
  · exact (spares_modify _).bind fun _ => spares_ofImport (Import.structures_spared a _)

theorem spares_fileItems (compiles : ∀ p, Spares (compile p)) (a : Import.Files) :
    Spares (fileItems compile subject a) :=
  (spares_listVariants _ _).bind fun _ => (spares_sayVariants _ _ _ _).bind fun _ =>
    spares_mapM (fun variant => (spares_dependency compiles _ _).discard.bind fun _ =>
      spares_sources.bind fun s => (spares_ofImport (s.referenceTo_spared variant)).bind fun _ =>
        spares_ofImport (Import.substitute_spared _ _ _ _)) _

theorem spares_includeFiles (compiles : ∀ p, Spares (compile p)) (a : Import.Include) :
    Spares (includeFiles compile subject a) := by
  refine spares_sources.bind fun s => ?_
  split
  · exact (spares_modify _).bind fun _ => (spares_dependency compiles _ _).discard
  · exact (spares_listVariants _ _).bind fun _ => (spares_sayVariants _ _ _ _).bind fun _ =>
      spares_forM (fun variant => (spares_dependency compiles _ _).discard) _

theorem spares_yieldOf (compiles : ∀ p, Spares (compile p)) (directive : ImportDirective) :
    Spares (yieldOf compile subject directive) := by
  cases directive with
  | conditional a => exact (spares_conditionalBranches compiles _ a).bind fun _ => spares_pure _
  | conditionalContents a =>
    exact (spares_conditionalBranches compiles _ a).bind fun _ => spares_pure _
  | registry a => exact (spares_registryItems a).bind fun _ => spares_pure _
  | filesIntoArray a => exact (spares_fileItems compiles a).bind fun _ => spares_pure _
  | include_ a => exact (spares_includeFiles compiles a).bind fun _ => spares_pure _

end Compile

/-! ## Executing the calls of a document -/

namespace Expansion

open Compile (Spares execute executeImport shifted spares_pure spares_ofImport spares_foldlM
  spares_yieldOf)

variable {document : Json}

theorem placed_spared (fields : Json.Fields) (yielded : Splicing.Yield) :
    Spared (placed fields yielded) := by
  unfold placed
  repeat' split
  all_goals first
    | exact spared_ok _
    | exact spared_error fun _ h => by cases h

theorem withBranches_spared (fields : Json.Fields) (branches : List Json) :
    Spared (withBranches fields branches) := by
  unfold withBranches
  split
  · exact spared_ok _
  · exact spared_ok _
  · rintro _ ⟨⟩ (lost | lost) <;> cases lost

/-- The layer is in its place and, if it has a slot, in its array. -/
theorem settle_spared {c : Context} {fields : Json.Fields}
    (here : document.at? c.location = some (.object fields)) (changed : Json.Fields)
    (collected : Option (List Json)) : Spared (settle document c changed collected) := by
  cases slot : c.arraySlot? with
  | none =>
    rw [settle_own slot ⟨_, here⟩]
    cases collected with
    | none => exact spared_ok _
    | some branches =>
      have spared := withBranches_spared changed branches
      rw [ownBranches]
      cases h : withBranches changed branches with
      | ok more => exact spared_ok _
      | error fault =>
        rintro _ ⟨⟩
        exact spared fault h
  | some slotOf =>
    obtain ⟨array, i⟩ := slotOf
    have way := Context.location_of_arraySlot? slot
    obtain ⟨before, after, rfl, node⟩ := split_of_slot (way ▸ here)
    rw [settle_slot slot way node]
    exact spared_ok _

variable {compile : Path → Compile CompiledSchema} {subject : Subject} {splices : List Splice}
  {calls : List DeferredCall}

theorem spares_execute (compiles : ∀ p, Spares (compile p)) {call : DeferredCall}
    {fields : Json.Fields} (here : document.at? call.context.location = some (.object fields)) :
    Spares (execute compile subject document call) := by
  obtain ⟨c, action⟩ := call
  cases action with
  | template key => exact spares_pure _
  | importing arguments =>
    change Spares (executeImport compile subject document c arguments)
    rw [executeImport_eq compile subject c here]
    refine Spares.bind ?_ fun r => spares_ofImport (settle_spared here r.1 r.2)
    refine (spares_ofImport (ImportDirective.parseAll_spared arguments)).bind fun directives => ?_
    refine (spares_foldlM (fun layer directive => ?_) directives _).bind fun _ => spares_pure _
    exact (spares_yieldOf compiles directive).bind fun yielded =>
      (spares_ofImport (placed_spared layer.1 yielded)).bind fun _ => spares_pure _

theorem Outcome.Answers.fits {outcome : Outcome} {call : DeferredCall}
    (h : outcome.Answers compile subject call) : Executed.Fits ⟨call, outcome⟩ := by
  rintro yields rfl
  obtain ⟨arguments, -, action, -⟩ := h
  exact ⟨arguments, action⟩

theorem spares_executeFrom (compiles : ∀ p, Spares (compile p))
    (standing : Standing document splices calls) :
    Spares (executeFrom compile subject document splices calls) := by
  induction calls generalizing document splices with
  | nil => exact spares_pure _
  | cons call calls ih =>
    obtain ⟨fields, here, -⟩ := standing.layers call List.mem_cons_self
    rw [← Compile.shifted_location] at here
    intro w e v run
    rw [executeFrom, Compile.bind_run] at run
    cases executed : execute compile subject document (shifted splices call) w with
    | error e' u =>
      rw [executed] at run
      cases run
      exact spares_execute compiles here w _ _ executed
    | ok r u =>
      rw [executed] at run
      obtain ⟨outcome, answers, enacted⟩ := outcome_of_execute executed
      have next := Standing.step (x := ⟨call, outcome⟩) standing answers.of_shifted.fits enacted
      exact ih next u e v run

end Expansion

/-! ## Compiling templates -/

namespace Compile

variable {compile : Path → Compile CompiledSchema} {subject : Subject}

theorem readTemplate_spared {files : FileSystem} {file : Path} {e : BuildError}
    (h : files.readTemplate file = .error e) : ¬ e.LosesLayer := by
  rintro ⟨id, fault, rfl, -⟩
  unfold FileSystem.readTemplate at h
  repeat' split at h
  all_goals cases h

theorem spares_correlateDocs (id : String) (document : Json) :
    Spares (correlateDocs id document) := by
  refine spares_get.bind fun w => ?_
  split
  · exact (spares_modify _).bind fun _ => spares_pure _
  · exact spares_pure _

theorem spares_writeOutput (output : Path) (text : String) : Spares (writeOutput output text) := by
  intro w e v run
  rcases writeOutput_run output text w with
    ⟨parent, cause, -, -, failed⟩ | ⟨files, -, ⟨cause, -, failed⟩ | ⟨files', -, done⟩⟩
  · rw [failed] at run
    cases run
    rintro ⟨_, _, ⟨⟩, -⟩
  · rw [failed] at run
    cases run
    rintro ⟨_, _, ⟨⟩, -⟩
  · rw [done] at run
    cases run

theorem spares_keep (schema : CompiledSchema) : Spares (keep schema) := by
  refine (spares_modify _).bind fun _ => ?_
  split
  · exact spares_get.bind fun w => (spares_modify _).bind fun _ =>
      (spares_writeOutput _ _).bind fun _ => spares_modify _
  · exact spares_pure _

theorem spares_expanded (compiles : ∀ p, Spares (compile p)) {document : Json}
    (distinct : document.DistinctKeys) : Spares (expanded compile subject document) := by
  refine (spares_modify _).bind fun _ => Spares.bind ?_ fun _ =>
    (spares_correlateDocs _ _).bind fun _ => spares_pure _
  rw [Expansion.executeAll_eq_map, map_eq_pure_bind]
  exact (Expansion.spares_executeFrom compiles (Expansion.standing_start distinct)).bind
    fun _ => spares_pure _

theorem spares_fresh (compiles : ∀ p, Spares (compile p)) : Spares (fresh compile subject) := by
  intro w e v run
  rw [fresh_run] at run
  cases read : w.files.readTemplate subject.source with
  | error e' =>
    rw [read] at run
    cases run
    exact readTemplate_spared read
  | ok document =>
    rw [read] at run
    have distinct := FileSystem.readTemplate_distinct read
    cases expansion : expanded compile subject document (w.cleared subject) with
    | error e' u =>
      simp only [expansion] at run
      cases run
      exact spares_expanded compiles distinct _ _ _ expansion
    | ok schema u =>
      simp only [expansion] at run
      cases kept : keep schema u with
      | ok done u' => simp [kept] at run
      | error e' u' =>
        simp only [kept] at run
        cases run
        exact spares_keep schema _ _ _ kept

theorem spares_within (length : Nat) (p : Path) : Spares (within length p) := by
  induction length generalizing p with
  | zero =>
    rintro w _ v ⟨⟩ ⟨_, _, ⟨⟩, -⟩
  | succ length ih =>
    intro w e v run
    rw [within_succ_run] at run
    cases state : w.state p with
    | known schema => simp [state] at run
    | cycle =>
      simp only [state] at run
      cases run
      rintro ⟨_, _, ⟨⟩, -⟩
    | unknown =>
      simp only [state] at run
      cases compiled : fresh (within length) (w.subject p) (w.marked p) with
      | ok schema u => simp [compiled] at run
      | error e' u =>
        simp only [compiled] at run
        cases run
        exact spares_fresh ih _ _ _ compiled

end Compile

theorem Workbench.compile_spared (w : Workbench) (path : Path) {e : BuildError}
    (failed : (w.compile path).1 = .error e) : ¬ e.LosesLayer := by
  have spared := Compile.spares_within (w.files.fileCount + 2) path w
  unfold compile at failed
  cases run : (Compile.template path).run w with
  | ok schema v => simp [run] at failed
  | error e' v =>
    rw [run] at failed
    cases failed
    exact spared _ v run

/-! ## Pending calls -/

namespace Expansion

open Compile (shifted)

/-- A pending call leads to the object on which it was found. That object is what the executed calls
in it make of it, it holds the call's key, and the slot that the call reports holds it. -/
structure Stands (document current : Json) (splices : List Splice) (trace : List Executed)
    (call : DeferredCall) (found now : Json.Fields) : Prop where
  origin : document.at? call.context.location = some (.object found)
  place : current.at? (shifted splices call).context.location = some (.object now)
  changed : (replay (.object found) [] (inside call.context.location trace)).map Prod.fst =
    .ok (.object now)
  key : call.key ∈ Ordered.names now
  slot : ∀ array i, (shifted splices call).context.arraySlot? = some (array, i) →
    ∃ items, current.at? array = some (.array items) ∧ items[i]? = some (.object now)

theorem stands_of_replay {document current : Json} {splices : List Splice} {trace : List Executed}
    {pending : List DeferredCall} {call : DeferredCall} (member : call ∈ pending)
    (standing : Standing document [] (trace.map Executed.call ++ pending))
    (fits : ∀ x ∈ trace, x.Fits) (run : replay document [] trace = .ok (current, splices)) :
    ∃ found now, Stands document current splices trace call found now := by
  obtain ⟨found, there, -⟩ := standing.layers call (List.mem_append_right _ member)
  obtain ⟨now, inner, alone, here⟩ :=
    replay_inside member standing fits (.start _ _) there run
  obtain ⟨fields, same, key⟩ := (standing.replay fits run).layers call member
  obtain rfl : now = fields := by simpa [here] using same
  rw [← Compile.shifted_location] at here
  refine ⟨found, now, there, here, by rw [alone]; rfl, key, fun array i slot => ?_⟩
  rw [Context.location_of_arraySlot? slot] at here
  obtain ⟨before, after, rfl, node⟩ := split_of_slot here
  exact ⟨_, node, by simp⟩

/-- While the calls of a document are executed, every pending call stands: it leads to the object on
which it was found, as the executed calls in that object have left it, whatever becomes of the rest
of the run. So no compilation of a template fails because an import has lost its layer or its slot.
`executeFrom` is `executeAll` with the splices so far (`executeAll_eq_map`, `executeFrom_append`).
-/
theorem pending_calls_stand :
    (∀ (compile : Path → Compile CompiledSchema) (subject : Subject) (document : Json),
      document.DistinctKeys → ∀ done pending : List DeferredCall,
      (Discovery.ofDocument document).calls = done ++ pending →
      ∀ (w v : Workbench) (current : Json) (splices : List Splice),
      executeFrom compile subject document [] done w = .ok (current, splices) v →
      ∃ trace : List Executed, trace.map Executed.call = done ∧
        (∀ x ∈ trace, x.outcome.Answers compile subject x.call) ∧
        replay document [] trace = .ok (current, splices) ∧
        ∀ call ∈ pending, ∃ found now, Stands document current splices trace call found now) ∧
    ∀ (w : Workbench) (path : Path) (e : BuildError), (w.compile path).1 = .error e →
      ¬ e.LosesLayer := by
  refine ⟨?_, fun w path e => w.compile_spared path⟩
  intro compile subject document distinct done pending split w v current splices run
  obtain ⟨trace, rfl, answers, replayed⟩ := replay_of_executeFrom run
  have standing := standing_start distinct
  rw [split] at standing
  exact ⟨trace, rfl, answers, replayed, fun call member =>
    stands_of_replay member standing (fun x hx => (answers x hx).fits) replayed⟩

/-- A source tree with nothing in the directory that `nestedImports` imports. -/
def noKinds : Workbench where
  session := .start ⟨⟨"/src"⟩, ⟨"/out"⟩⟩ none none false
  files := ⟨[], [(["src"], .directory), (["src", "kinds"], .directory)]⟩
  log := []

/-- The run of the first call of `nestedImports`, which leaves nothing in its slot. -/
def firstCall : EStateM.Result BuildError Workbench (Json × List Splice) :=
  executeFrom (Compile.within 3) ⟨⟨"/src/a.yml"⟩, "a"⟩ nestedImports []
    ((Discovery.ofDocument nestedImports).calls.take 1) noKinds

theorem firstCall_ok : ∃ r v, firstCall = .ok r v := by
  have ok : (match firstCall with
      | .ok _ _ => true
      | .error _ _ => false) = true := by decide +kernel
  cases run : firstCall with
  | ok r v => exact ⟨r, v, rfl⟩
  | error e v => simp [run] at ok

theorem pending_calls_stand_nestedImports :
    nestedImports.DistinctKeys ∧
      ((Discovery.ofDocument nestedImports).calls.drop 1).length = 3 ∧
      (∃ current splices v, firstCall = .ok (current, splices) v ∧ ∃ trace : List Executed,
        replay nestedImports [] trace = .ok (current, splices) ∧
        ∀ call ∈ (Discovery.ofDocument nestedImports).calls.drop 1,
          ∃ found now, Stands nestedImports current splices trace call found now) ∧
      ∃ e, (noKinds.compile ⟨"/src/a.yml"⟩).1 = .error e ∧ ¬ e.LosesLayer := by
  refine ⟨nestedImports_distinct, by decide +kernel, ?_, ?_⟩
  · obtain ⟨⟨current, splices⟩, v, run⟩ := firstCall_ok
    obtain ⟨trace, -, -, replayed, stand⟩ := pending_calls_stand.1 _ _ _ nestedImports_distinct _ _
      (List.take_append_drop 1 _).symm _ _ _ _ run
    exact ⟨current, splices, v, run, trace, replayed, stand⟩
  · have missing : (noKinds.compile ⟨"/src/a.yml"⟩).1.toOption.isSome = false := by decide +kernel
    cases failed : (noKinds.compile ⟨"/src/a.yml"⟩).1 with
    | ok schema =>
      rw [failed] at missing
      cases missing
    | error e => exact ⟨e, rfl, pending_calls_stand.2 _ _ e failed⟩

end Expansion

end SchemaLoom
