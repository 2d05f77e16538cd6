import SchemaLoom.Proofs.Session.Requests
import SchemaLoom.Proofs.Session.Writing

/-!
# Which templates a compilation gets to

Compiling a template asks for others, which ask for others. Every one of these requests is described
by the workbench on which it is made, the templates that are being compiled then, and the room that
is left for a longer chain. What the whole compilation results in depends on the requests alone.
-/

namespace SchemaLoom

open Compile

variable {A : Path → Prop} {excused : BuildError → Prop} {K : List Path → Workbench → Prop}
  {n m k : Nat} {p q x y d : Path} {w v u z : Workbench} {P Q B : List Path} {s : CompiledSchema}
  {c : Path → Compile CompiledSchema} {subject : Subject} {document : Json}

/-- While the template `p` is compiled from the workbench `w` with room for a chain of `n`
templates, `x` is asked for on the workbench `v` with room for `m`. The templates `P` are being
compiled then, the innermost first. -/
inductive Visits (n : Nat) (p : Path) (w : Workbench) :
    List Path → Nat → Path → Workbench → Prop where
  | start : Visits n p w [] n p w
  | ask {P : List Path} {m : Nat} {x d : Path} {v u : Workbench} :
      Visits n p w P (m + 1) x v → v.state x = .unknown →
      Requests (fun c => fresh c (v.subject x)) (within m) (v.marked x) d u →
      Visits n p w (x :: P) m d u

/-! ## One template -/

namespace Compile

theorem readTemplate_error {fs : FileSystem} {e : BuildError}
    (failed : fs.readTemplate p = .error e)
    (id : String) : e ≠ .importCycle id := by
  rintro rfl
  unfold FileSystem.readTemplate at failed
  split at failed
  · simp at failed
  · split at failed <;> simp at failed

theorem keep_error {e : BuildError} (failed : keep s w = .error e v) :
    ∃ path cause, e = .file path cause := by
  rw [keep_run] at failed
  split at failed
  · have wrote := failed ▸ write_run s (w.finished s)
    cases wrote with
    | noDirectory cause _ _ _ => exact ⟨_, cause, rfl⟩
    | noFile cause _ _ _ => exact ⟨_, cause, rfl⟩
  · simp at failed

end Compile

/-! ## Chains of requests -/

namespace Visits

theorem length (h : Visits n p w P m x v) : P.length + m = n := by
  induction h with
  | start => simp
  | ask _ _ _ ih =>
    rw [List.length_cons]
    omega

theorem trans (h : Visits n p w P m x v) (h' : Visits m x v Q k y z) :
    Visits n p w (Q ++ P) k y z := by
  induction h' with
  | start => exact h
  | ask _ unknown asks ih => exact .ask ih unknown asks

theorem inside (unknown : w.state p = .unknown)
    (asks : Requests (fun c => fresh c (w.subject p)) (within n) (w.marked p) d u)
    (h : Visits n d u P m x v) : Visits (n + 1) p w (P ++ [p]) m x v :=
  (Visits.ask .start unknown asks).trans h

theorem first (h : Visits n p w P m x v) :
    P = [] ∧ m = n ∧ x = p ∧ v = w ∨ ∃ k d u P', n = k + 1 ∧ w.state p = .unknown ∧
      Requests (fun c => fresh c (w.subject p)) (within k) (w.marked p) d u ∧
      P = P' ++ [p] ∧ Visits k d u P' m x v := by
  induction h with
  | start => exact .inl ⟨rfl, rfl, rfl, rfl⟩
  | @ask P m x d v u _ unknown asks ih =>
    rcases ih with ⟨rfl, rfl, rfl, rfl⟩ | ⟨k, d', u', P', rfl, unknown', asks', rfl, rest⟩
    · exact .inr ⟨m, d, u, [], rfl, unknown, asks, rfl, .start⟩
    · exact .inr ⟨k, d', u', x :: P', rfl, unknown', asks', rfl, rest.ask unknown asks⟩

theorem of_mem (h : Visits n p w P m x v) (mem : q ∈ P) : ∃ Q k z, Visits n p w Q k q z := by
  induction h with
  | start => cases mem
  | ask h _ _ ih =>
    rcases List.mem_cons.mp mem with rfl | mem
    · exact ⟨_, _, _, h⟩
    · exact ih mem

theorem ok (h : Visits n p w P m x v) (run : within n p w = .ok s u) :
    ∃ t v', within m x v = .ok t v' := by
  induction h with
  | start => exact ⟨s, u, run⟩
  | @ask P m x d v u' _ unknown asks ih =>
    obtain ⟨t, v', run⟩ := ih
    rw [within_succ_run, unknown] at run
    obtain ⟨document, read, relies⟩ := requests_fresh asks
    cases answer : within m d u' with
    | ok t' z => exact ⟨t', z, rfl⟩
    | error e z =>
      have failed : fresh (within m) (v.subject x) (v.marked x) = _ :=
        (relies_fresh read relies).fails answer
      simp [failed] at run

end Visits

namespace Compile

/-- A compilation that reports a cycle got to a template being compiled, or ran out of room. -/
theorem within_cycle {id : String} (run : within n p w = .error (.importCycle id) u) :
    ∃ P m x v, Visits n p w P m x v ∧ (m = 0 ∨ v.state x = .cycle) ∧ id = (v.subject x).id := by
  induction n generalizing p w u with
  | zero =>
    rw [within_zero_run] at run
    exact ⟨[], 0, p, w, .start, .inl rfl, by simpa [eq_comm] using (EStateM.Result.error.inj run).1⟩
  | succ n ih =>
    rw [within_succ_run] at run
    cases state : w.state p with
    | known t => simp [state] at run
    | cycle =>
      simp only [state] at run
      exact ⟨[], n + 1, p, w, .start, .inr state,
        by simpa [eq_comm] using (EStateM.Result.error.inj run).1⟩
    | unknown =>
      simp only [state, fresh_run] at run
      cases read : (w.marked p).files.readTemplate (w.subject p).source with
      | error e =>
        simp only [read, EStateM.Result.error.injEq] at run
        exact absurd run.1 (readTemplate_error read id)
      | ok document =>
        simp only [read] at run
        cases run' :
            expanded (within n) (w.subject p) document ((w.marked p).cleared (w.subject p)) with
        | error e v =>
          simp only [run', EStateM.Result.error.injEq] at run
          rcases (Uniform.expanded (w.subject p) document).fault_or run' with
            ⟨id', fault, rfl⟩ | ⟨d, v', relies, failed⟩
          · simp at run
          · rw [run.1] at failed
            obtain ⟨P, m, x, z, visits, stuck, named⟩ := ih failed
            exact ⟨P ++ [p], m, x, z,
              visits.inside state (relies_fresh read relies).requests, stuck,
              named⟩
        | ok t v =>
          simp only [run'] at run
          cases kept : keep t v with
          | ok done z => simp [kept] at run
          | error e z =>
            simp only [kept, EStateM.Result.error.injEq] at run
            obtain ⟨path, cause, rfl⟩ := keep_error kept
            simp at run

theorem within_succ_of_room (room : ∀ P m x v, Visits n p w P m x v → 0 < m) :
    within (n + 1) p w = within n p w := by
  induction n generalizing p w with
  | zero => exact absurd (room _ _ _ _ .start) (Nat.lt_irrefl 0)
  | succ n ih =>
    rw [within_succ_run (n + 1), within_succ_run n]
    cases state : w.state p with
    | known t => rfl
    | cycle => rfl
    | unknown =>
      simp only
      rw [fresh_run, fresh_run]
      cases read : (w.marked p).files.readTemplate (w.subject p).source with
      | error e => rfl
      | ok document =>
        have same :
            expanded (within (n + 1)) (w.subject p) document ((w.marked p).cleared (w.subject p)) =
            expanded (within n) (w.subject p) document ((w.marked p).cleared (w.subject p)) :=
          (Uniform.expanded (w.subject p) document).congr fun d u relies =>
            ih fun P m x v visits => room _ _ _ _
              (visits.inside state (relies_fresh read relies).requests)
        simp only [same]

/-- What is known of a template that a compilation does not get to stays as it is. -/
theorem within_unvisited (apart : ∀ P m x v, Visits n p w P m x v → x.same y = false) :
    (reached (within n p w)).state y = w.state y := by
  induction n generalizing p w with
  | zero => rfl
  | succ n ih =>
    have self : p.same y = false := apart _ _ _ _ .start
    rw [within_succ_run]
    cases state : w.state p with
    | known t => rfl
    | cycle => rfl
    | unknown =>
      have marked : (w.marked p).state y = w.state y := Cache.state_begin_of_ne self
      have unmarked : ∀ u : Workbench, (u.unmarked p).state y = u.state y := fun u =>
        Cache.state_abandon_of_ne self
      simp only
      rw [fresh_run]
      cases read : (w.marked p).files.readTemplate (w.subject p).source with
      | error e => exact (unmarked _).trans marked
      | ok document =>
        have uniform := fun A => Uniform.expanded (A := A) (w.subject p) document
        have kept : Kept (fun u : Workbench => u.state y = w.state y) (fun _ => False) _
            (expanded (within n) (w.subject p) document ((w.marked p).cleared (w.subject p))) :=
          (uniform _).kept_of_relied (fun u _ => finds_any u)
            (fun u v hu quiet => (state_quiet quiet y).trans hu) (fun _ _ _ hu => hu) (uniform _)
            marked fun d _ v hv relies => kept_iff_reached.mpr
              ((ih fun P m x z visits => apart _ _ _ _
                (visits.inside state (relies_fresh read relies).requests)).trans hv)
        cases run :
            expanded (within n) (w.subject p) document ((w.marked p).cleared (w.subject p)) with
        | error e v =>
          rw [run] at kept
          simp only [run]
          exact (unmarked v).trans (kept.resolve_left id)
        | ok s v =>
          rw [run] at kept
          have source : s.source = p := kept.1.2
          have stored : (reached (keep s v)).state y = w.state y := by
            obtain ⟨diagnostics, written, session⟩ := keep_session s v
            rw [Workbench.state, session, ← kept.2]
            exact Cache.state_finish_of_ne (source ▸ self)
          cases ends : keep s v with
          | error e u =>
            rw [ends, reached_error] at stored
            simp only [run, ends]
            exact (unmarked u).trans stored
          | ok done u =>
            rw [ends, reached_ok] at stored
            simp only [run, ends]
            exact stored

theorem Steady.visits (steady : Steady A excused K) (hp : A p) (h : K B w)
    (visits : Visits n p w P m x v) : A x ∧ K (P ++ B) v := by
  induction visits with
  | start => exact ⟨hp, h⟩
  | @ask P m x d v u _ unknown asks ih =>
    obtain ⟨hx, hv⟩ := ih
    obtain ⟨document, -, relies⟩ := requests_fresh asks
    have calls : ∀ d, A d → ∀ u, K (x :: (P ++ B)) u →
        Kept (K (x :: (P ++ B))) excused (fun _ => True)
        (dependency (Compile.within m) (v.subject x).source d u) := fun d hd u hu =>
      steady.within m hd (steady.linked hx hd hu)
    have cleared := steady.cleared hx (steady.marked hx hv unknown) (v.subject x).id
    obtain ⟨hd, u', hu, rfl⟩ := (Uniform.expanded (v.subject x) document).requested
      (fun _ => steady.finds) (fun _ _ => steady.quiet) calls cleared relies.requests
    exact ⟨hd, steady.linked hx hd hu⟩

theorem Steady.asked {F : Path → Prop} (steady : Steady A excused K)
    (finds : ∀ {P w}, K P w → Finds F w) (admits : ∀ d, F d → A d) (hp : A p) (h : K B w)
    (visits : Visits n p w (q :: P) m x v) : F x := by
  cases visits with
  | @ask _ _ _ _ z _ visits unknown asks =>
    obtain ⟨hq, hz⟩ := steady.visits hp h visits
    obtain ⟨document, -, relies⟩ := requests_fresh asks
    have calls : ∀ d, F d → ∀ u, K (q :: (P ++ B)) u → Kept (K (q :: (P ++ B))) excused
        (fun _ => True) (dependency (Compile.within m) (z.subject q).source d u) := fun d hd u hu =>
      steady.within m (admits d hd) (steady.linked hq (admits d hd) hu)
    have cleared := steady.cleared hq (steady.marked hq hz unknown) (z.subject q).id
    exact ((Uniform.expanded (z.subject q) document).requested (fun _ => finds)
      (fun _ _ => steady.quiet) calls cleared relies.requests).1

end Compile

end SchemaLoom
