import Mathlib.Logic.Relation
import SchemaLoom.Proofs.Session.Coupling

/-!
# What a template compiles to

Whether a template compiles, and to what, is said without a cache: the templates it asks for
compile, and with their documents as answers its own expansion succeeds. Such a derivation is a
finite tree. No template stands below itself in a smallest one, so a template that is being
compiled is never needed to compile those that it asks for.
-/

namespace SchemaLoom

/-- The template at a path. -/
def Workbench.subject (w : Workbench) (p : Path) : Subject := ⟨p, w.session.layout.schemaId p⟩

/-- The workbench on which a template that was read is expanded. -/
def Workbench.cleared (w : Workbench) (subject : Subject) : Workbench :=
  (w.say "compile" subject.id).modifySession fun s =>
    { s with imports := s.imports.forget subject.source }

namespace Compile

theorem begun_run (subject : Subject) (w : Workbench) :
    begun subject w = match w.files.readTemplate subject.source with
      | .ok document => .ok document (w.cleared subject)
      | .error e => .error e (w.say "compile" subject.id) := by
  have said : say "compile" subject.id w = .ok ⟨⟩ (w.say "compile" subject.id) := rfl
  have files : (w.say "compile" subject.id).files = w.files := rfl
  unfold begun
  rw [bind_run_ok said, get_bind_run, files]
  cases w.files.readTemplate subject.source <;> rfl

/-- The expansion of a template on its own, with imports answered from a table. -/
def attempt (base : Workbench) (known : Path → Option CompiledSchema) (p : Path)
    (document : Json) : EStateM.Result BuildError Workbench CompiledSchema :=
  expanded (answer known) (base.subject p) document (base.cleared (base.subject p))

end Compile

theorem Quiet.symm {w v : Workbench} (h : Quiet w v) : Quiet v w := by
  obtain ⟨files, diagnostics, session⟩ := h
  exact ⟨files.symm, w.session.diagnostics, by rw [session]⟩

theorem Quiet.trans {w v u : Workbench} (h : Quiet w v) (h' : Quiet v u) : Quiet w u := by
  obtain ⟨files, diagnostics, session⟩ := h
  obtain ⟨files', diagnostics', session'⟩ := h'
  exact ⟨files'.trans files, diagnostics', by rw [session', session]⟩

theorem Quiet.refl (w : Workbench) : Quiet w w := ⟨rfl, w.session.diagnostics, rfl⟩

theorem Quiet.linked {w v : Workbench} (h : Quiet w v) (p d : Path) :
    Quiet (w.linked p d) (v.linked p d) := by
  obtain ⟨files, diagnostics, session⟩ := h
  refine ⟨files, diagnostics, ?_⟩
  simp only [Workbench.linked, Workbench.modifySession]
  rw [session]

theorem Quiet.sameView {w v : Workbench} (h : Quiet w v) : SameView w v := by
  obtain ⟨files, diagnostics, session⟩ := h
  have sources : v.sources = w.sources := by simp [Workbench.sources, files, session]
  refine ⟨by rw [session], by rw [session], by rw [session], fun raw => by rw [sources],
    fun raw directory exclude _ => by rw [sources], fun relative => by rw [session, files],
    fun site url _ => by rw [files]⟩

theorem finds_any (w : Workbench) : Finds (fun _ => True) w :=
  ⟨fun _ _ _ _ _ _ => trivial, fun _ _ _ => trivial⟩

namespace Compile

theorem Uniform.yields {α : Type} {V : Workbench → Workbench → Prop} {subject : Subject}
    {c : Path → Compile CompiledSchema} {x : (Path → Compile CompiledSchema) → Compile α}
    {Q : α → Prop} (h : Uniform V (fun _ => True) subject x Q) {w v : Workbench} {a : α}
    (run : x c w = .ok a v) : Q a := by
  have ends : Kept (fun _ => True) (fun _ => False) Q (x c w) :=
    h.kept (fun w _ => finds_any w) (fun _ _ _ _ => trivial) (fun d _ v _ => by
      cases dependency c subject.source d v with
      | ok s v => exact ⟨trivial, trivial⟩
      | error e v => exact .inr trivial) w trivial
  rw [run] at ends
  exact ends.1

variable {base v v' : Workbench} {known known' : Path → Option CompiledSchema} {p : Path}
  {document : Json} {s s' : CompiledSchema}

/-- Two runs with answers from two tables that are compared as long as both go on. -/
def answered (left right : Prop) : Coupling :=
  ⟨Quiet, fun _ _ => True, fun _ => left, fun _ _ => right⟩

theorem answered_stable (left right : Prop) :
    (answered left right).Stable SameView fun _ => True where
  view := Quiet.sameView
  finds := fun _ => finds_any _
  quiet := fun h hw hv => hw.symm.trans (h.trans hv)
  failed := fun _ => trivial

theorem attempt_coupled (base : Workbench) (p : Path) (document : Json) {left right : Prop}
    (calls : ∀ d, known d = none ∧ left ∨ known' d = none ∧ right ∨
      ∃ t, known d = some t ∧ known' d = some t) :
    Coupled (answered left right) (fun _ => True)
      (attempt base known p document) (attempt base known' p document) := by
  have answers : ∀ d, True → ∀ w u, Quiet w u → Coupled (answered left right) (fun _ => True)
      (dependency (answer known) (base.subject p).source d w)
      (dependency (answer known') (base.subject p).source d u) := by
    intro d _ w u related
    rw [dependency_run, dependency_run, answer_run, answer_run]
    rcases calls d with ⟨hk, excused⟩ | ⟨hk, excused⟩ | ⟨t, hk, hk'⟩
    · rw [hk]
      exact .left excused
    · rw [hk]
      exact .right excused
    · rw [hk, hk']
      exact .ok trivial (related.linked _ d)
  exact Uniform.coupled (answered_stable left right) answers
    ((Uniform.expanded (base.subject p) document).mono fun _ _ => trivial)
    _ _ (Quiet.refl (base.cleared (base.subject p)))

/-- Tables that do not contradict each other lead to one result. -/
theorem attempt_unique
    (agree : ∀ d t t', known d = some t → known' d = some t' → t = t')
    (run : attempt base known p document = .ok s v)
    (run' : attempt base known' p document = .ok s' v') : s = s' ∧ Quiet v v' := by
  have calls : ∀ d, known d = none ∧ True ∨ known' d = none ∧ True ∨
      ∃ t, known d = some t ∧ known' d = some t := by
    intro d
    cases hk : known d with
    | none => exact .inl ⟨rfl, trivial⟩
    | some t =>
      cases hk' : known' d with
      | none => exact .inr (.inl ⟨rfl, trivial⟩)
      | some t' => exact .inr (.inr ⟨t, rfl, by rw [agree d t t' hk hk']⟩)
  have coupled := attempt_coupled base p document calls
  rw [run, run'] at coupled
  cases coupled with
  | ok _ related => exact ⟨rfl, related⟩

theorem attempt_mono (more : ∀ d t, known d = some t → known' d = some t)
    (run : attempt base known p document = .ok s v) :
    ∃ v', attempt base known' p document = .ok s v' ∧ Quiet v v' := by
  have calls : ∀ d, known d = none ∧ True ∨ known' d = none ∧ False ∨
      ∃ t, known d = some t ∧ known' d = some t := by
    intro d
    cases hk : known d with
    | none => exact .inl ⟨rfl, trivial⟩
    | some t => exact .inr (.inr ⟨t, rfl, more d t hk⟩)
  have coupled := attempt_coupled base p document calls
  rw [run] at coupled
  match attempt base known' p document, coupled with
  | _, .ok _ related => exact ⟨_, rfl, related⟩

end Compile

open Compile

/-- A template compiles to a document, without any template that satisfies `avoid`. -/
inductive Compiles (base : Workbench) (avoid : Path → Prop) : Path → CompiledSchema → Prop where
  | intro {p : Path} {s : CompiledSchema} {document : Json} {v : Workbench}
      (known : Path → Option CompiledSchema) : ¬ avoid p →
      (∀ d t, known d = some t → Compiles base avoid d t) →
      base.files.readTemplate p = .ok document → attempt base known p document = .ok s v →
      Compiles base avoid p s

/-- A template compiles. -/
def Good (base : Workbench) (p : Path) : Prop := ∃ s, Compiles base (fun _ => False) p s

namespace Compiles

variable {base : Workbench} {avoid avoid' : Path → Prop} {p : Path} {s s' : CompiledSchema}

theorem not_avoid (h : Compiles base avoid p s) : ¬ avoid p := by
  cases h
  assumption

theorem mono (weaker : ∀ x, avoid' x → avoid x) (h : Compiles base avoid p s) :
    Compiles base avoid' p s := by
  induction h with
  | intro known free _ read run ih => exact .intro known (fun h => free (weaker _ h)) ih read run

theorem good (h : Compiles base avoid p s) : Good base p := ⟨s, h.mono fun _ => False.elim⟩

theorem unique (h : Compiles base avoid p s) (h' : Compiles base avoid' p s') : s = s' := by
  induction h generalizing s' with
  | intro known _ _ read run ih =>
    cases h' with
    | intro known' _ answers read' run' =>
      obtain rfl := Except.ok.inj (read.symm.trans read')
      exact (attempt_unique (fun d t t' hd hd' => ih d t hd (answers d t' hd')) run run').1

/-- A template is compiled from others that compile without it. -/
theorem unfold (h : Compiles base avoid p s) : ∃ known document v,
    (∀ d t, known d = some t → Compiles base (fun x => avoid x ∨ x = p) d t) ∧
      base.files.readTemplate p = .ok document ∧ attempt base known p document = .ok s v := by
  -- In a derivation, either `p` is nowhere, or a derivation of `p` without itself is found.
  have search : ∀ {x t}, Compiles base avoid x t →
      Compiles base (fun y => avoid y ∨ y = p) x t ∨ ∃ t' known document v,
        (∀ d t, known d = some t → Compiles base (fun x => avoid x ∨ x = p) d t) ∧
          base.files.readTemplate p = .ok document ∧ attempt base known p document = .ok t' v := by
    intro x t hx
    induction hx with
    | @intro x t document v known free _ read run ih =>
      by_cases found : ∃ t' known document v,
          (∀ d t, known d = some t → Compiles base (fun x => avoid x ∨ x = p) d t) ∧
            base.files.readTemplate p = .ok document ∧ attempt base known p document = .ok t' v
      · exact .inr found
      · have below := fun d t hd => (ih d t hd).resolve_right found
        by_cases self : x = p
        · subst self
          exact .inr ⟨t, known, document, v, below, read, run⟩
        · exact .inl (.intro known (not_or.mpr ⟨free, self⟩) below read run)
  rcases search h with without | ⟨s', known, document, v, below, read, run⟩
  · exact absurd (.inr rfl) without.not_avoid
  · have again : Compiles base (fun _ => False) p s' :=
      .intro known id (fun d t hd => (below d t hd).mono fun _ => False.elim) read run
    obtain rfl := h.unique again
    exact ⟨known, document, v, below, read, run⟩

theorem avoids (bad : ∀ x, avoid' x → ¬ Good base x)
    (h : Compiles base (fun _ => False) p s) : Compiles base avoid' p s := by
  induction h with
  | intro known _ answers read run ih =>
    exact .intro known (fun hx => bad _ hx ⟨_, .intro known id answers read run⟩) ih read run

end Compiles

/-! ## The verdict on every template -/

section Verdict

open Classical

/-- The document of every template that compiles. -/
noncomputable def verdict (base : Workbench) (p : Path) : Option CompiledSchema :=
  if h : Good base p then some h.choose else none

variable {base : Workbench} {p d : Path} {s : CompiledSchema}

theorem verdict_eq_some : verdict base p = some s ↔ Compiles base (fun _ => False) p s := by
  unfold verdict
  constructor
  · intro h
    split at h
    · rename_i good
      exact Option.some.inj h ▸ good.choose_spec
    · simp at h
  · intro h
    have good : Good base p := ⟨s, h⟩
    rw [dif_pos good, good.choose_spec.unique h]

theorem verdict_eq_none : verdict base p = none ↔ ¬ Good base p := by
  rw [← not_iff_not, not_not, ← ne_eq, Option.ne_none_iff_exists']
  simp only [verdict_eq_some]
  rfl

/-- What a template asks for when everything that compiles is known. -/
def Asks (base : Workbench) (p d : Path) : Prop :=
  ∃ document, base.files.readTemplate p = .ok document ∧
    Asked (base.subject p) (reached (attempt base (verdict base) p document)) d

/-- What is reached from a template by asking for admitted ones. -/
def Reach (A : Path → Prop) (base : Workbench) : Path → Path → Prop :=
  Relation.ReflTransGen fun x y => A y ∧ Asks base x y

end Verdict

end SchemaLoom
