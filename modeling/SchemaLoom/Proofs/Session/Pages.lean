import SchemaLoom.Proofs.FileSystem.Similar

/-!
# Documentation wherever it is

Pages of documentation have other names than outputs. So writing outputs leaves the pages as they
were even if the documentation is in the output tree or around it.
-/

namespace SchemaLoom

open SchemaLoom.Path FileSystem

/-! ## Where pages are -/

theorem isAbsolute_relativePage (address : List Char) :
    (ofChars (Docs.Site.relativePage address)).isAbsolute = false := by
  cases ha : (ofChars (Docs.Site.relativePage address)).isAbsolute with
  | false => rfl
  | true =>
    obtain ⟨cs, hcs⟩ := isAbsolute_iff.mp ha
    rw [chars_ofChars] at hcs
    have first : Docs.Site.relativePage address <+: address.dropWhile (· == '/') :=
      (List.takeWhile_prefix _).trans (List.rdropWhile_prefix _ _)
    obtain ⟨rest, hrest⟩ := hcs ▸ first
    have := List.head?_dropWhile_not (· == '/') address
    rw [← hrest] at this
    simp at this

theorem names_of_steps {cs : List Char} (h : ['.', '.'] ∉ Text.splitOn '/' cs) :
    ∃ ns : Place, steps cs = ns.map .name := by
  unfold steps
  generalize Text.splitOn '/' cs = pieces at h
  induction pieces with
  | nil => exact ⟨[], rfl⟩
  | cons piece pieces ih =>
    simp only [List.mem_cons, not_or] at h
    obtain ⟨ns, hns⟩ := ih h.2
    rw [List.filterMap_cons, hns]
    cases hp : Component.ofPiece? piece with
    | none => exact ⟨ns, rfl⟩
    | some c =>
      have hu : Component.ofPiece? ['.', '.'] = some .up := rfl
      cases c with
      | root => exact absurd hp ofPiece?_ne_root
      | here => exact absurd hp ofPiece?_ne_here
      | name s => exact ⟨s :: ns, rfl⟩
      | up =>
        unfold Component.ofPiece? at hp
        split at hp
        · simp at hp
        · split at hp
          · rename_i he
            exact absurd he.symm h.1
          · simp at hp

/-- Where a page is, unless its path ends in `..`. -/
theorem pageFile_near {site : Docs.Site} {D : Place} (hD : site.root.LeadsTo D) {url : String}
    {file : Path} (hf : site.pageFile url = .ok file) :
    (∃ ns place, file.LeadsTo place ∧ Near (D ++ ns) place) ∨
      ∃ ns : Place, file.components = .root :: ns.map .name ++ [.up] := by
  unfold Docs.Site.pageFile at hf
  split at hf
  · simp at hf
  · rename_i address _
    simp only at hf
    split at hf
    · simp at hf
    · rename_i plain
      have hup : ['.', '.'] ∉ Text.splitOn '/' (Docs.Site.relativePage address) := by
        simpa using (not_or.mp (by simpa using plain)).2
      obtain ⟨ns, hns⟩ := names_of_steps hup
      have joined :
          (site.root.join (ofChars (Docs.Site.relativePage address))).LeadsTo (D ++ ns) := by
        unfold LeadsTo
        rw [components_join hD.isAbsolute (isAbsolute_relativePage address), hD, chars_ofChars, hns]
        simp
      simp only [Except.ok.injEq] at hf
      split at hf
      · exact .inl ⟨ns, _, hf ▸ joined, .inl (List.prefix_refl _)⟩
      · rcases List.eq_nil_or_concat (D ++ ns) with top | ⟨a, s, last⟩
        · have unnamed : (site.root.join (ofChars (Docs.Site.relativePage address))).fileName? =
              none := by
            unfold Path.fileName?
            rw [joined, top]
            rfl
          rw [Path.withExtension, unnamed] at hf
          exact .inl ⟨ns, _, hf ▸ joined, .inl (List.prefix_refl _)⟩
        · rw [List.concat_eq_append] at last
          rw [last] at joined
          rcases joined.withExtension (e := "md") (by decide) (by decide) with ⟨t, ht⟩ | hup
          · exact .inl ⟨ns, _, hf ▸ ht, .inr ⟨a, s, t, last, rfl⟩⟩
          · exact .inr ⟨a, hf ▸ hup⟩

theorem readText_up {fs : FileSystem} {p : Path} {ns : Place} {s : String}
    (hc : p.components = .root :: ns.map .name ++ [.up]) : fs.readText p ≠ .ok s := by
  intro read
  obtain ⟨place, hf⟩ := readText_eq_ok.mp read
  simpa using find_up hc hf

theorem toOption_page {site : Docs.Site} {fs fs' : FileSystem} {url : String}
    (same : ∀ file, site.pageFile url = .ok file → ∀ s,
      fs'.readText file = .ok s ↔ fs.readText file = .ok s) :
    (site.page fs url).toOption = (site.page fs' url).toOption := by
  unfold Docs.Site.page
  cases hf : site.pageFile url with
  | error e => rfl
  | ok file =>
    have := same file hf
    cases h : fs.readText file with
    | ok s =>
      simp only
      rw [h, (this s).mpr h]
    | error e =>
      cases h' : fs'.readText file with
      | ok s => simp [(this s).mp h'] at h
      | error e' =>
        simp only
        rw [h, h']
        rfl

/-! ## Names of outputs and of pages -/

/-- The name of an output ends with its extension. -/
def OutputName (name : String) : Prop := '.' :: outputExtension.toList <:+ name.toList

theorem Layout.outputName_of_outputFor {l : Layout} (h : l.output.isAbsolute = true) {file : Path}
    {name : String} (named : (l.outputFor file).fileName? = some name) : OutputName name := by
  obtain ⟨relative, eq⟩ := l.outputFor_eq file
  rw [eq] at named
  exact fileName?_withExtension (join_isAbsolute _ h) (by decide) (by decide) named

theorem not_outputName_of_pageFile {site : Docs.Site} (h : site.root.isAbsolute = true)
    {url : String} {file : Path} (hf : site.pageFile url = .ok file) {name : String}
    (named : file.fileName? = some name) : ¬ OutputName name := by
  have page : '.' :: "md".toList <:+ name.toList := by
    unfold Docs.Site.pageFile at hf
    split at hf
    · simp at hf
    · simp only at hf
      split at hf
      · simp at hf
      · simp only [Except.ok.injEq] at hf
        split at hf
        · rename_i markdown
          rw [hf, Path.extension?, named, Option.bind_some] at markdown
          cases cut : cutName name.toList with
          | mk stem extension =>
            obtain ⟨e, rfl, text⟩ := Option.map_eq_some_iff.mp (by simpa [cut] using markdown)
            obtain ⟨whole, -, -⟩ := eq_of_cutName cut
            rw [whole, ← text, String.toList_ofList]
            exact List.suffix_append _ _
        · rw [← hf] at named
          exact fileName?_withExtension (join_isAbsolute _ h) (by decide) (by decide) named
  intro output
  rcases List.suffix_or_suffix_of_suffix page output with first | first <;> revert first <;> decide

/-! ## Files that are no outputs -/

/-- Apart from files with names of outputs, there are the same files. -/
def FileSystem.SamePages (fs fs' : FileSystem) : Prop :=
  ∀ place, (∀ name, place.getLast? = some name → ¬ OutputName name) → ∀ c,
    fs'.entry? place = some (.file c) ↔ fs.entry? place = some (.file c)

namespace FileSystem.SamePages

variable {fs fs' fs'' : FileSystem}

theorem refl (fs : FileSystem) : SamePages fs fs := fun _ _ _ => Iff.rfl

theorem trans (h : SamePages fs fs') (h' : SamePages fs' fs'') : SamePages fs fs'' :=
  fun place other c => (h' place other c).trans (h place other c)

theorem without {o : Place} (ne : o ≠ [])
    (named : ∀ name, o.getLast? = some name → OutputName name) :
    SamePages fs (fs.without (· == o)) := by
  intro place other c
  rw [entry?_without_of_kept]
  have apart : place ≠ o := by
    rintro rfl
    obtain ⟨init, name, last⟩ := (List.eq_nil_or_concat place).resolve_left ne
    have last : place.getLast? = some name := by simp [last]
    exact other name last (named name last)
  simpa using apart

theorem page (h : SamePages fs fs') (wf : WellFormed fs) (wf' : WellFormed fs') {site : Docs.Site}
    {D : Place} (hD : site.root.LeadsTo D) (url : String) :
    (site.page fs url).toOption = (site.page fs' url).toOption := by
  apply toOption_page
  intro file hf s
  have other : ∀ name, file.fileName? = some name → ¬ OutputName name := fun name =>
    not_outputName_of_pageFile hD.isAbsolute hf
  rcases pageFile_near hD hf with ⟨ns, place, leads, -⟩ | ⟨ns, up⟩
  · apply readText_congr wf wf' leads
    refine h place fun name last => other name ?_
    obtain ⟨init, rfl⟩ := List.getLast?_eq_some_iff.mp last
    exact leads.fileName?
  · exact iff_of_false (readText_up up) (readText_up up)

end FileSystem.SamePages

end SchemaLoom
