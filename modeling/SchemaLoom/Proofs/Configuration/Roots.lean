import SchemaLoom.Proofs.Path.Lexical
import SchemaLoom.Proofs.Reference.RoundTrip
import SchemaLoom.Proofs.Watch.Rebuilding

/-!
# The roots of a loaded configuration

The source root of a loaded configuration is canonical, and it is compared with the output root by
their components. Where nothing is at the output root yet, its path keeps every `..` that it has. So
an output root that leads to the source root, or to a directory around it, is refused exactly if its
path has no `..` left.

Whatever the path looks like, outputs go where it leads when each `..` takes back a name. There they
are beside their templates only if that is the source root, and there and nowhere else files are
removed before a build.
-/

namespace SchemaLoom

open SchemaLoom.Path FileSystem

variable {fs files : FileSystem} {l : Layout} {S D place a : Place} {p : Path} {entry : Entry}
  {name : String} {pieces : List (List Char)} {contents : Contents}

/-! ## Where paths lead -/

namespace Path

theorem Resolution.names_read_up (r : Resolution) : (r.read .up).names = r.names.dropLast := by
  rcases List.eq_nil_or_concat' r.names with empty | ⟨a, s, last⟩
  · rw [Resolution.read_up_of_nil empty, empty]
    rfl
  · rw [Resolution.read_up_of_concat last, last, List.dropLast_concat]

end Path

namespace FileSystem

/-- Without links, `..` leads back to where the last name was. -/
theorem follow_names {r : Resolution} (h : fs.follow r.names pieces = .ok place) :
    place = ((pieces.filterMap Component.ofPiece?).foldl Resolution.read r).names := by
  induction pieces generalizing r with
  | nil => exact (Except.ok.inj h).symm
  | cons piece pieces ih =>
    rw [follow_cons] at h
    obtain ⟨-, -, rest⟩ := h
    unfold after at rest
    rw [List.filterMap_cons]
    cases read : Component.ofPiece? piece with
    | none =>
      rw [read] at rest
      exact ih rest
    | some c =>
      rw [read] at rest
      cases c with
      | root => exact absurd read ofPiece?_ne_root
      | here => exact absurd read ofPiece?_ne_here
      | up => exact ih (r := r.read .up) (r.names_read_up ▸ rest)
      | name s => exact ih (r := r.read (.name s)) rest

theorem find_resolution (absolute : p.isAbsolute = true) (found : fs.find p = .ok (place, entry)) :
    place = p.resolution.names := by
  have followed := ((locate_absolute absolute).mp (find_eq_ok.mp found).1).2
  rw [Path.resolution, split_components absolute]
  exact follow_names (r := .start) followed

theorem WellFormed.pathExists_of_up (wf : WellFormed fs) (absolute : p.isAbsolute = true)
    (up : .up ∈ (fs.normalizePath p).components) : fs.pathExists (fs.normalizePath p) = false := by
  cases found : fs.find p with
  | ok there =>
    obtain ⟨place, entry⟩ := there
    rw [normalizePath_of_find found, leadsTo_pathOf (wf.valid (find_eq_ok.mp found).2)] at up
    simp at up
  | error cause =>
    have same : fs.normalizePath p = p := by
      unfold normalizePath canonical?
      rw [found]
      exact if_pos absolute
    rw [same, pathExists, found]

end FileSystem

theorem Layout.place_of_output (source : l.source.LeadsTo S) (absolute : l.output.isAbsolute = true)
    (wf : WellFormed fs) (inside : p.LeadsTo (S ++ D ++ [name]))
    (found : fs.find (l.outputFor p) = .ok (place, .file contents)) :
    ∃ s, place = l.output.resolution.names ++ D ++ [s] := by
  obtain ⟨c, whole, ends⟩ := components_outputFor source absolute inside
  rcases ends with ⟨rfl, -⟩ | rfl
  · -- No file has a path that ends in `..`.
    have unnamed := wf.fileName?_of_find found
    have none : (l.outputFor p).fileName? = none := by simp [Path.fileName?, whole]
    obtain rfl := List.getLast?_eq_none_iff.mp (unnamed.symm.trans none)
    simpa using (find_eq_ok.mp found).2
  · have place := find_resolution (outputFor_isAbsolute absolute p) found
    rw [Path.resolution, whole, left_concat, left_names] at place
    exact ⟨_, place⟩

/-! ## What a configuration is checked for -/

namespace Configuration

variable {c : Configuration} {options : CommandLine.Options}

/-- Where the output root leads to. -/
def outputPlace (c : Configuration) : Place := c.output.resolution.names

theorem load_eq_error {e : ConfigurationError} (gathered : gather files options = .ok c) :
    load files options = .error e ↔ c.fault? files = some e := by
  unfold load
  rw [gathered]
  dsimp only
  cases c.fault? files <;> simp

theorem fault?_eq_outputAroundSource (directory : files.isDirectory c.source = true) :
    c.fault? files = some .outputAroundSource ↔ c.source.startsWith c.output = true := by
  have there : files.pathExists c.source = true := by
    obtain ⟨place, found⟩ := isDirectory_iff.mp directory
    rw [pathExists, found]
  unfold fault?
  rw [there, directory]
  by_cases around : c.source.startsWith c.output = true
  · simp [around]
  · simp only [around, Bool.not_true, Bool.false_eq_true, if_false, iff_false]
    split
    · simp
    · cases c.docsRoot.filter fun p => !files.isDirectory p <;> simp

theorem source_startsWith_output (source : c.source.LeadsTo S)
    (absolute : c.output.isAbsolute = true) :
    c.source.startsWith c.output = true ↔
      c.outputPlace <+: S ∧ .up ∉ c.output.components := by
  by_cases up : .up ∈ c.output.components
  · refine iff_of_false (fun begins => ?_) fun both => both.2 up
    have mem := (Path.startsWith_iff.mp begins).subset up
    rw [source] at mem
    simp at mem
  · obtain ⟨T, output⟩ := leadsTo_of_not_mem_up absolute up
    rw [source.startsWith_iff output, outputPlace, output.resolution]
    simp [up]

/-- What the place of the output root means for a source tree. -/
structure OutputsTo (c : Configuration) (S T : Place) : Prop where
  /-- A file at the output of a template is beside it only if outputs go to the source root. -/
  beside : ∀ {fs p D name place contents}, WellFormed fs → p.LeadsTo (S ++ D ++ [name]) →
    fs.find (c.layout.outputFor p) = .ok (place, .file contents) →
    (place.dropLast = S ++ D ↔ T = S)
  /-- What is removed before a build is at the place and inside of it. -/
  removed : ∀ {w v : Workbench}, w.cleanOutput c = .ok v → ∀ q ≠ [], v.files.entry? q =
    if w.files.pathExists c.output = true ∧ T <+: q then none else w.files.entry? q

theorem outputsTo (source : c.source.LeadsTo S) (absolute : c.output.isAbsolute = true) :
    c.OutputsTo S c.outputPlace where
  beside := by
    intro fs p D name place contents wf inside found
    obtain ⟨s, rfl⟩ := Layout.place_of_output (l := c.layout) source absolute wf inside found
    rw [List.dropLast_concat, List.append_left_inj]
    rfl
  removed := by
    intro w v cleaned q ne
    unfold Workbench.cleanOutput at cleaned
    split at cleaned
    · rename_i there
      split at cleaned
      · simp at cleaned
      · rename_i files removed
        obtain rfl := Except.ok.inj cleaned
        unfold FileSystem.removeDirectory at removed
        split at removed
        · simp at removed
        · simp at removed
        · rename_i place found
          obtain rfl := Except.ok.inj removed
          obtain rfl := find_resolution absolute found
          change FileSystem.entry? (w.files.without (List.isPrefixOf c.outputPlace)) q = _
          by_cases top : c.outputPlace = []
          · rw [top, entry?_without_nil ne]
            simp [there]
          · rw [entry?_without top]
            simp [there]
    · rename_i absent
      obtain rfl := Except.ok.inj cleaned
      simp [absent]

/-- An output root that leads to the source root or to a directory around it is refused exactly if
no `..` is left in its path. It is accepted only if nothing is there yet. -/
theorem load_roots (wf : WellFormed files) (gathered : gather files options = .ok c)
    (directory : files.isDirectory c.source = true) :
    ∃ S, ValidPlace S ∧ c.source = pathOf S ∧
      (load files options = .error .outputAroundSource ↔
        c.outputPlace <+: S ∧ .up ∉ c.output.components) ∧
      (load files options = .ok c → c.outputPlace <+: S →
        .up ∈ c.output.components ∧ files.pathExists c.output = false) ∧
      c.OutputsTo S c.outputPlace := by
  have refused := load_eq_error (e := .outputAroundSource) gathered
  obtain ⟨given, root, file, rfl⟩ := gather_eq_ok gathered
  have absolute : ∀ p, ((files.normalizePath root).join p).isAbsolute = true := fun p =>
    join_isAbsolute p (isAbsolute_normalizePath files root)
  obtain ⟨S, valid, source, -⟩ := wf.normalizePath_directory (absolute given.source) directory
  have leads : (locate files root file given).source.LeadsTo S := by
    rw [LeadsTo, show (locate files root file given).source = pathOf S from source]
    exact leadsTo_pathOf valid
  have output : (locate files root file given).output.isAbsolute = true :=
    isAbsolute_normalizePath files _
  have around := source_startsWith_output leads output
  refine ⟨S, valid, source, ?_, fun loaded begins => ?_, outputsTo leads output⟩
  · rw [refused, fault?_eq_outputAroundSource directory, around]
  · have up : .up ∈ (locate files root file given).output.components := by
      by_contra none
      obtain ⟨-, apart, -⟩ := fault?_eq_none (load_eq_ok loaded).1
      rw [around.mpr ⟨begins, none⟩] at apart
      simp at apart
    exact ⟨up, wf.pathExists_of_up (absolute given.output) up⟩

end Configuration

/-! ## An output root that leads to the source root -/

def crossedProject : FileSystem where
  workingDirectory := []
  entries := [(["src"], .directory), (["src", "a.yml"], .file (.text "title: a\n"))]

/-- The way to the output root goes through a directory that is missing. -/
def crossedOptions : CommandLine.Options :=
  { CommandLine.Options.none with source := some ⟨"src"⟩, output := some ⟨"gone/../src"⟩ }

def crossedConfiguration : Configuration :=
  { Configuration.standard with
    file := ⟨"/schemac.toml"⟩
    root := some ⟨"/"⟩
    source := ⟨"/src"⟩
    output := ⟨"/gone/../src"⟩ }

/-- What the first build leaves. -/
def crossedBuilt : Workbench :=
  (Workbench.buildAll ⟨.start crossedConfiguration.layout none none true, crossedProject, []⟩
    crossedConfiguration).2

/-- The configuration is accepted, its first build puts the output beside the template, and removing
the output tree removes the template. -/
theorem load_roots_crossedProject :
    Configuration.load crossedProject crossedOptions = .ok crossedConfiguration ∧
    .up ∈ crossedConfiguration.output.components ∧
    (∃ contents, crossedBuilt.files.find (crossedConfiguration.layout.outputFor ⟨"/src/a.yml"⟩) =
      .ok (["src", "a.json"], .file contents)) ∧ crossedConfiguration.outputPlace = ["src"] ∧
    ∀ v, crossedBuilt.cleanOutput crossedConfiguration = .ok v →
      v.files.entry? ["src", "a.yml"] = none := by
  have wf : WellFormed crossedProject := .ofEntries (by decide) (by decide)
  have gathered : Configuration.gather crossedProject crossedOptions = .ok crossedConfiguration :=
    eq_ok_of_toOption (by decide +kernel)
  have loaded : Configuration.load crossedProject crossedOptions = .ok crossedConfiguration :=
    eq_ok_of_toOption (by decide +kernel)
  have directory : crossedProject.isDirectory crossedConfiguration.source = true := by
    decide +kernel
  have built : WellFormed crossedBuilt.files :=
    .ofEntries (by decide +kernel) (by decide +kernel)
  have output : crossedBuilt.files.find (crossedConfiguration.layout.outputFor ⟨"/src/a.yml"⟩) =
      .ok (["src", "a.json"], .file (.text "\x7b\n\t\"title\": \"a\"\n\x7d")) :=
    eq_ok_of_toOption (by decide +kernel)
  obtain ⟨S, valid, source, -, accepted, outputs⟩ :=
    Configuration.load_roots wf gathered directory
  obtain rfl : S = ["src"] := pathOf_inj valid (by decide) (source.symm.trans (by decide))
  have leads : Path.LeadsTo ⟨"/src/a.yml"⟩ (["src"] ++ [] ++ ["a.yml"]) := by decide
  have root : crossedConfiguration.outputPlace = ["src"] :=
    (outputs.beside built leads output).mp rfl
  have there : crossedBuilt.files.pathExists crossedConfiguration.output = true := by
    decide +kernel
  refine ⟨loaded, (accepted loaded (root ▸ List.prefix_rfl)).1, ⟨_, output⟩, root,
    fun v cleaned => ?_⟩
  rw [outputs.removed cleaned _ (by decide), if_pos ⟨there, by rw [root]; decide⟩]

end SchemaLoom
