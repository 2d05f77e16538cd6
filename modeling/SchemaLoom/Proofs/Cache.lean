import SchemaLoom.Cache
import SchemaLoom.Proofs.Path.Components

/-!
# What the cache knows

The mark of a template and its document count for every way of writing its path. Marking, storing
and taking back a mark change what is known of one template only.
-/

namespace SchemaLoom.Cache

variable {c : Cache} {p q : Path} {entry : CacheEntry}
  {schema s : CompiledSchema}

theorem lookup_congr (h : p.same q = true) (entries : List (Path × CacheEntry)) :
    lookup p entries = lookup q entries := by
  induction entries with
  | nil => rfl
  | cons e entries ih =>
    obtain ⟨r, old⟩ := e
    have hr : r.same p = r.same q := by
      rw [Path.same_comm, Path.same_congr (Path.same_iff.mp h), Path.same_comm]
    simp [lookup, hr, ih]

theorem lookup_put_self (h : p.same q = true) (entries : List (Path × CacheEntry)) :
    lookup q (put p entry entries) = some entry := by
  rw [← lookup_congr h]
  induction entries with
  | nil => simp [put, lookup]
  | cons e entries ih =>
    obtain ⟨r, old⟩ := e
    by_cases hr : r.same p = true
    · simp [put, lookup, hr]
    · simp [put, lookup, hr, ih]

theorem lookup_put_of_ne (h : p.same q = false) (entries : List (Path × CacheEntry)) :
    lookup q (put p entry entries) = lookup q entries := by
  induction entries with
  | nil => simp [put, lookup, h]
  | cons e entries ih =>
    obtain ⟨r, old⟩ := e
    by_cases hr : r.same p = true
    · have hq : r.same q = false := by rw [Path.same_congr (Path.same_iff.mp hr), h]
      simp [put, lookup, hr, hq]
    · simp [put, lookup, hr, ih]

theorem lookup_filter_of_ne (h : p.same q = false) (entries : List (Path × CacheEntry)) :
    lookup q (entries.filter fun e => !(e.1.same p && isInProgress e.2)) = lookup q entries := by
  induction entries with
  | nil => rfl
  | cons e entries ih =>
    obtain ⟨r, old⟩ := e
    rw [List.filter_cons]
    by_cases hr : r.same p = true
    · have hq : r.same q = false := by rw [Path.same_congr (Path.same_iff.mp hr), h]
      split <;> simp [lookup, hq, ih, -Bool.not_and]
    · rw [if_pos (by simp [hr])]
      simp [lookup, ih, -Bool.not_and]

theorem lookup_filter_done {entries : List (Path × CacheEntry)}
    (h : lookup p entries = some (.done schema)) :
    lookup p (entries.filter fun e => !(e.1.same p && isInProgress e.2)) =
      some (.done schema) := by
  induction entries with
  | nil => simp [lookup] at h
  | cons e entries ih =>
    obtain ⟨r, old⟩ := e
    by_cases hr : r.same p = true
    · obtain rfl : old = .done schema := by simpa [lookup, hr] using h
      rw [List.filter_cons, if_pos (by simp [isInProgress])]
      simp [lookup, hr]
    · rw [List.filter_cons, if_pos (by simp [hr])]
      simp only [lookup, hr] at h ⊢
      exact ih h

/-- No template has two entries. -/
def Distinct (c : Cache) : Prop := c.entries.Pairwise fun e e' => e.1.same e'.1 = false

theorem mem_put {e : Path × CacheEntry} {entries : List (Path × CacheEntry)}
    (h : e ∈ put p entry entries) : e.1.same p = true ∨ e ∈ entries := by
  induction entries with
  | nil =>
    obtain rfl := List.mem_singleton.mp h
    exact .inl (Path.same_self _)
  | cons e' entries ih =>
    obtain ⟨r, old⟩ := e'
    by_cases hr : r.same p = true
    · simp only [put, hr, if_true, List.mem_cons] at h
      rcases h with rfl | h
      · exact .inl hr
      · exact .inr (List.mem_cons_of_mem _ h)
    · rw [put, if_neg hr, List.mem_cons] at h
      rcases h with rfl | h
      · exact .inr List.mem_cons_self
      · exact (ih h).imp_right (List.mem_cons_of_mem _)

theorem distinct_put {entries : List (Path × CacheEntry)}
    (h : entries.Pairwise fun e e' => e.1.same e'.1 = false) :
    (put p entry entries).Pairwise fun e e' => e.1.same e'.1 = false := by
  induction entries with
  | nil => simp [put]
  | cons e entries ih =>
    obtain ⟨r, old⟩ := e
    obtain ⟨first, rest⟩ := List.pairwise_cons.mp h
    by_cases hr : r.same p = true
    · simp only [put, hr, if_true]
      exact List.pairwise_cons.mpr ⟨first, rest⟩
    · rw [put, if_neg hr]
      refine List.pairwise_cons.mpr ⟨fun e' mem => ?_, ih rest⟩
      rcases mem_put mem with hp | mem
      · rw [Path.same_comm, Path.same_congr (Path.same_iff.mp hp), Path.same_comm]
        simpa using hr
      · exact first _ mem

theorem lookup_eq_none_of_first {entries : List (Path × CacheEntry)} {r : Path}
    (h : ∀ e ∈ entries, r.same e.1 = false) : lookup r entries = none := by
  induction entries with
  | nil => rfl
  | cons e entries ih =>
    obtain ⟨r', old⟩ := e
    have hr := h _ List.mem_cons_self
    rw [Path.same_comm] at hr
    simp [lookup, hr, ih fun e mem => h e (List.mem_cons_of_mem _ mem)]

/-- A mark that is taken back leaves nothing. -/
theorem lookup_filter_mark {entries : List (Path × CacheEntry)}
    (distinct : entries.Pairwise fun e e' => e.1.same e'.1 = false)
    (h : lookup p entries = some .inProgress) :
    lookup p (entries.filter fun e => !(e.1.same p && isInProgress e.2)) = none := by
  induction entries with
  | nil => rfl
  | cons e entries ih =>
    obtain ⟨r, old⟩ := e
    obtain ⟨first, rest⟩ := List.pairwise_cons.mp distinct
    by_cases hr : r.same p = true
    · obtain rfl : old = .inProgress := by simpa [lookup, hr] using h
      rw [List.filter_cons, if_neg (by simp [hr, isInProgress])]
      apply lookup_eq_none_of_first
      intro e mem
      rw [← Path.same_congr (Path.same_iff.mp hr)]
      exact first e (List.mem_of_mem_filter mem)
    · rw [List.filter_cons, if_pos (by simp [hr])]
      simp only [lookup, hr] at h ⊢
      exact ih rest h

/-! ## States -/

@[simp] theorem state_empty : empty.state p = .unknown := rfl

theorem state_congr (h : p.same q = true) : c.state p = c.state q := by
  simp [state, lookup_congr h]

theorem state_begin_self (h : p.same q = true) : (c.begin_ p).state q = .cycle := by
  simp [state, begin_, lookup_put_self h]

theorem state_begin_of_ne (h : p.same q = false) : (c.begin_ p).state q = c.state q := by
  simp [state, begin_, lookup_put_of_ne h]

theorem state_finish_self (h : schema.source.same q = true) :
    (c.finish schema).state q = .known schema := by
  simp [state, finish, lookup_put_self h]

theorem state_finish_of_ne (h : schema.source.same q = false) :
    (c.finish schema).state q = c.state q := by
  simp [state, finish, lookup_put_of_ne h]

theorem state_abandon_of_ne (h : p.same q = false) : (c.abandon p).state q = c.state q := by
  simp only [state, abandon, lookup_filter_of_ne h]

theorem state_abandon_cycle (distinct : c.Distinct) (h : c.state p = .cycle) :
    (c.abandon p).state p = .unknown := by
  have hl : lookup p c.entries = some .inProgress := by
    unfold state at h
    split at h <;> simp_all
  simp only [state, abandon, lookup_filter_mark distinct hl]

theorem state_abandon_known (h : c.state p = .known schema) :
    (c.abandon p).state p = .known schema := by
  have hl : lookup p c.entries = some (.done schema) := by
    unfold state at h
    split at h <;> simp_all
  simp only [state, abandon, lookup_filter_done hl]

theorem mem_of_lookup {entries : List (Path × CacheEntry)} (h : lookup p entries = some entry) :
    ∃ q, (q, entry) ∈ entries ∧ q.same p = true := by
  induction entries with
  | nil => simp [lookup] at h
  | cons e entries ih =>
    obtain ⟨r, old⟩ := e
    by_cases hr : r.same p = true
    · obtain rfl : old = entry := by simpa [lookup, hr] using h
      exact ⟨r, List.mem_cons_self, hr⟩
    · simp only [lookup, hr] at h
      obtain ⟨q, mem, hq⟩ := ih h
      exact ⟨q, List.mem_cons_of_mem _ mem, hq⟩

theorem mem_of_known (h : c.state p = .known schema) :
    ∃ q, (q, .done schema) ∈ c.entries ∧ q.same p = true := by
  apply mem_of_lookup
  unfold state at h
  split at h <;> simp_all

theorem state_abandon_ne_cycle (h : p.same q = true) : (c.abandon p).state q ≠ .cycle := by
  rw [← state_congr h]
  intro hc
  unfold state at hc
  split at hc
  · simp at hc
  · rename_i hl
    obtain ⟨r, mem, hr⟩ := mem_of_lookup hl
    have := (List.mem_filter.mp mem).2
    simp [hr, isInProgress] at this
  · simp at hc

theorem distinct_empty : empty.Distinct := List.Pairwise.nil

theorem Distinct.begin_ (h : c.Distinct) : (c.begin_ p).Distinct := distinct_put h

theorem Distinct.finish (h : c.Distinct) : (c.finish schema).Distinct := distinct_put h

theorem Distinct.abandon (h : c.Distinct) : (c.abandon p).Distinct := h.filter _

/-! ## Marks -/

/-- The templates of a list are being compiled. -/
structure Marks (c : Cache) (P : List Path) : Prop where
  distinct : c.Distinct
  busy : ∀ q ∈ P, c.state q = .cycle
  apart : P.Pairwise fun p q => p.same q = false

variable {P : List Path}

theorem Marks.begin_ (h : c.Marks P) (unknown : c.state p = .unknown) :
    (c.begin_ p).Marks (p :: P) := by
  have ne : ∀ q ∈ P, p.same q = false := by
    intro q mem
    rw [Bool.eq_false_iff]
    intro hq
    rw [state_congr hq, h.busy q mem] at unknown
    simp at unknown
  refine ⟨h.distinct.begin_, List.forall_mem_cons.mpr ⟨state_begin_self (Path.same_self p), ?_⟩,
    List.pairwise_cons.mpr ⟨ne, h.apart⟩⟩
  intro q mem
  rw [state_begin_of_ne (ne q mem), h.busy q mem]

theorem Marks.abandon (h : c.Marks (p :: P)) : (c.abandon p).Marks P := by
  obtain ⟨ne, apart⟩ := List.pairwise_cons.mp h.apart
  refine ⟨h.distinct.abandon, fun q mem => ?_, apart⟩
  rw [state_abandon_of_ne (ne q mem), h.busy q (List.mem_cons_of_mem p mem)]

theorem Marks.finish (h : c.Marks (schema.source :: P)) : (c.finish schema).Marks P := by
  obtain ⟨ne, apart⟩ := List.pairwise_cons.mp h.apart
  refine ⟨h.distinct.finish, fun q mem => ?_, apart⟩
  rw [state_finish_of_ne (ne q mem), h.busy q (List.mem_cons_of_mem _ mem)]

theorem Marks.abandon_known (h : c.Marks P) (known : c.state p = .known schema) :
    (c.abandon p).Marks P := by
  refine ⟨h.distinct.abandon, fun q mem => ?_, h.apart⟩
  have ne : p.same q = false := by
    rw [Bool.eq_false_iff]
    intro hq
    rw [state_congr hq, h.busy q mem] at known
    simp at known
  rw [state_abandon_of_ne ne, h.busy q mem]

theorem known_begin (unknown : c.state p = .unknown) :
    (c.begin_ p).state q = .known schema ↔ c.state q = .known schema := by
  cases hq : p.same q with
  | true => simp [state_begin_self hq, ← state_congr hq, unknown]
  | false => rw [state_begin_of_ne hq]

theorem known_abandon (distinct : c.Distinct) (known : c.state p ≠ .unknown) :
    (c.abandon p).state q = .known schema ↔ c.state q = .known schema := by
  cases hq : p.same q with
  | false => rw [state_abandon_of_ne hq]
  | true =>
    rw [← state_congr hq, ← state_congr hq]
    cases hs : c.state p with
    | unknown => exact absurd hs known
    | cycle => simp [state_abandon_cycle distinct hs]
    | known s => rw [state_abandon_known hs]

theorem known_finish : (c.finish schema).state q = .known s ↔
    schema.source.same q = true ∧ s = schema ∨
      schema.source.same q = false ∧ c.state q = .known s := by
  cases hq : schema.source.same q with
  | true => simp [state_finish_self hq, eq_comm]
  | false => simp [state_finish_of_ne hq]

/-! ## Exactly these marks -/

/-- Exactly the templates of a list are being compiled, and none of them twice. -/
structure Stacked (c : Cache) (P : List Path) : Prop where
  busy : ∀ x, c.state x = .cycle ↔ ∃ q ∈ P, q.same x = true
  apart : P.Pairwise fun p q => p.same q = false

theorem Stacked.begin_ (h : c.Stacked P) (unknown : c.state p = .unknown) :
    (c.begin_ p).Stacked (p :: P) where
  busy x := by
    rw [List.exists_mem_cons_iff]
    cases hx : p.same x with
    | true => simp [state_begin_self hx]
    | false => simp [state_begin_of_ne hx, h.busy x]
  apart := by
    refine List.pairwise_cons.mpr ⟨fun q mem => ?_, h.apart⟩
    rw [Bool.eq_false_iff]
    intro hq
    rw [(h.busy p).mpr ⟨q, mem, Path.same_comm.trans hq⟩] at unknown
    cases unknown

theorem Stacked.other (h : c.Stacked (p :: P)) (hx : p.same q = true) :
    ¬ ∃ r ∈ P, r.same q = true := by
  rintro ⟨r, mem, hr⟩
  have ne := (List.pairwise_cons.mp h.apart).1 r mem
  rw [Path.same_congr (Path.same_iff.mp hx), Path.same_comm, hr] at ne
  cases ne

theorem Stacked.abandon (h : c.Stacked (p :: P)) : (c.abandon p).Stacked P where
  busy x := by
    cases hx : p.same x with
    | true => exact iff_of_false (state_abandon_ne_cycle hx) (h.other hx)
    | false => simp [state_abandon_of_ne hx, h.busy x, hx]
  apart := (List.pairwise_cons.mp h.apart).2

theorem Stacked.finish (h : c.Stacked (schema.source :: P)) : (c.finish schema).Stacked P where
  busy x := by
    cases hx : schema.source.same x with
    | true => exact iff_of_false (by simp [state_finish_self hx]) (h.other hx)
    | false => simp [state_finish_of_ne hx, h.busy x, hx]
  apart := (List.pairwise_cons.mp h.apart).2

/-- Taking back the mark of a template that is stored changes no mark. -/
theorem Stacked.abandon_known (h : c.Stacked P) (known : c.state p = .known schema) :
    (c.abandon p).Stacked P where
  busy x := by
    cases hx : p.same x with
    | false => rw [state_abandon_of_ne hx, h.busy x]
    | true =>
      refine iff_of_false (state_abandon_ne_cycle hx) fun stacked => ?_
      rw [state_congr hx, (h.busy x).mpr stacked] at known
      cases known
  apart := h.apart

/-! ## What was finished -/

/-- What was done with the cache since it was empty: the documents `F` were finished, in this order,
and the templates `P` are being compiled, the innermost first. -/
inductive Records : List CompiledSchema → List Path → Cache → Prop where
  | empty : Records [] [] .empty
  | begin_ {F : List CompiledSchema} {P : List Path} {c : Cache} {p : Path} :
      Records F P c → c.state p = .unknown → Records F (p :: P) (c.begin_ p)
  | finish {F : List CompiledSchema} {P : List Path} {c : Cache} {s : CompiledSchema} :
      Records F (s.source :: P) c → Records (F ++ [s]) P (c.finish s)
  | abandon {F : List CompiledSchema} {P : List Path} {c : Cache} {p : Path} :
      Records F (p :: P) c → Records F P (c.abandon p)
  /-- A document that could not be written is abandoned when it is finished already. -/
  | late {F : List CompiledSchema} {P : List Path} {c : Cache} {p : Path} {s : CompiledSchema} :
      Records F P c → c.state p = .known s → Records F P (c.abandon p)

namespace Records

variable {F : List CompiledSchema}

theorem distinct (h : Records F P c) : c.Distinct := by
  induction h with
  | empty => exact distinct_empty
  | begin_ _ _ ih => exact ih.begin_
  | finish _ ih => exact ih.finish
  | abandon _ ih => exact ih.abandon
  | late _ _ ih => exact ih.abandon

theorem stacked (h : Records F P c) : c.Stacked P := by
  induction h with
  | empty => exact ⟨fun x => iff_of_false (by simp) (by simp), .nil⟩
  | begin_ _ unknown ih => exact ih.begin_ unknown
  | finish _ ih => exact ih.finish
  | abandon _ ih => exact ih.abandon
  | late _ known ih => exact ih.abandon_known known

theorem compiled (h : Records F P c) : c.compiled = F.length := by
  induction h with
  | empty => rfl
  | begin_ _ _ ih => exact ih
  | finish _ ih => simp [Cache.finish, ih]
  | abandon _ ih => exact ih
  | late _ _ ih => exact ih

theorem unfinished (h : c.Stacked (p :: P)) (known : ∀ t, c.state q = .known t ↔
    t ∈ F ∧ t.source.same q = true) (hq : p.same q = true) {t : CompiledSchema} (mem : t ∈ F) :
    t.source.same q = false := by
  rw [Bool.eq_false_iff]
  intro same
  have stored := (known t).mpr ⟨mem, same⟩
  rw [(h.busy q).mpr ⟨p, List.mem_cons_self, hq⟩] at stored
  cases stored

/-- What is stored was finished, and the other way round. -/
theorem known_iff (h : Records F P c) (q : Path) (t : CompiledSchema) :
    c.state q = .known t ↔ t ∈ F ∧ t.source.same q = true := by
  induction h generalizing q t with
  | empty => simp
  | begin_ _ unknown ih => rw [known_begin unknown, ih]
  | @finish F P c s h ih =>
    rw [known_finish, ih, List.mem_append, List.mem_singleton]
    cases hq : s.source.same q with
    | true =>
      constructor
      · rintro (⟨-, rfl⟩ | ⟨⟨⟩, -⟩)
        exact ⟨.inr rfl, hq⟩
      · rintro ⟨mem | rfl, same⟩
        · rw [unfinished h.stacked (fun t => ih q t) hq mem] at same
          cases same
        · exact .inl ⟨rfl, rfl⟩
    | false =>
      constructor
      · rintro (⟨⟨⟩, -⟩ | ⟨-, mem, same⟩)
        exact ⟨.inl mem, same⟩
      · rintro ⟨mem | rfl, same⟩
        · exact .inr ⟨rfl, mem, same⟩
        · rw [hq] at same
          cases same
  | @abandon F P c p h ih =>
    have busy := (h.stacked.busy p).mpr ⟨p, List.mem_cons_self, Path.same_self p⟩
    rw [known_abandon h.distinct (by simp [busy]), ih]
  | late h known ih => rw [known_abandon h.distinct (by simp [known]), ih]

theorem once (h : Records F P c) : F.Pairwise fun s t => s.source.same t.source = false := by
  induction h with
  | empty => exact .nil
  | begin_ _ _ ih => exact ih
  | @finish F P c s h ih =>
    refine List.pairwise_append.mpr ⟨ih, List.pairwise_singleton _ _, fun t mem r last => ?_⟩
    obtain rfl := List.mem_singleton.mp last
    exact unfinished h.stacked (h.known_iff r.source) (Path.same_self _) mem
  | abandon _ ih => exact ih
  | late _ _ ih => exact ih

end Records

end SchemaLoom.Cache
