import SchemaLoom.Proofs.Directive
import SchemaLoom.Proofs.Layout
import SchemaLoom.Proofs.Path.Relative
import SchemaLoom.Proofs.Reference.Tokens

/-!
# References lead to outputs

Resolving a document changes nothing but the tokens in its strings, and takes permissions for
missing references away. A token that names a template becomes a relative path that leads from the
directory of the document's output to the output of the template, wherever in the trees the two are.
-/

namespace SchemaLoom

open SchemaLoom.Path FileSystem Reference

namespace Layout

variable {l : Layout} {S T D : Place} {file : Path} {name : String}

theorem outputFor_below (absolute : l.source.isAbsolute = true) {rest : List Component}
    (below : file.components = l.source.components ++ rest) :
    ∃ relative, l.sourceRelative? file = some relative ∧ relative.isAbsolute = false ∧
      Path.steps relative.chars = rest ∧
      l.outputFor file = (l.output.join relative).withExtension outputExtension := by
  obtain ⟨relative, found, isRelative, steps, -⟩ := below?_eq_some absolute below
  refine ⟨relative, found, isRelative, steps, ?_⟩
  unfold outputFor sourceRelative?
  rw [found]

section

variable (source : l.source.LeadsTo S) (output : l.output.LeadsTo T)
  (inside : file.LeadsTo (S ++ D ++ [name]))
include source output inside

theorem outputFor_mirrored : ∃ mirrored : Path,
    l.outputFor file = mirrored.withExtension outputExtension ∧
      mirrored.LeadsTo (T ++ D ++ [name]) := by
  have below : file.components = l.source.components ++ (D ++ [name]).map .name := by
    rw [inside, source]
    simp
  obtain ⟨relative, -, isRelative, steps, eq⟩ := outputFor_below source.isAbsolute below
  refine ⟨_, eq, ?_⟩
  unfold LeadsTo
  rw [components_join output.isAbsolute isRelative, output, steps]
  simp

theorem outputDirectory_leadsTo : ((l.outputFor file).parent?.getD l.output).LeadsTo (T ++ D) := by
  obtain ⟨mirrored, eq, leads⟩ := outputFor_mirrored source output inside
  have parent : ∃ q, (l.outputFor file).parent? = some q ∧ q.LeadsTo (T ++ D) := by
    rw [eq]
    rcases leads.withExtension (e := outputExtension) (by decide) (by decide) with ⟨t, ht⟩ | up
    · exact ht.parent?
    · exact parent?_leadsTo up
  obtain ⟨q, hq, leads⟩ := parent
  rwa [hq, Option.getD_some]

theorem outputFor_leadsTo (solid : file.stem ≠ ".") :
    (l.outputFor file).LeadsTo (T ++ D ++ [file.stem ++ ".json"]) := by
  obtain ⟨mirrored, eq, leads⟩ := outputFor_mirrored source output inside
  have stem : file.stem = String.ofList (cutName name.toList).1 := by
    simp [Path.stem, Path.stem?, inside.fileName?]
  have solid' : (cutName name.toList).1 ≠ ['.'] := by
    intro dot
    exact solid (by rw [stem, dot])
  have text : String.ofList ((cutName name.toList).1 ++ '.' :: outputExtension.toList) =
      file.stem ++ ".json" := by
    rw [stem, String.ofList_append]
    rfl
  rw [eq, ← text]
  exact leads.withExtension_stem (by decide) (by decide) solid'

end

/-- Nothing but the roots and the file brings a backslash into an output's path. -/
theorem backslash_not_mem_outputFor (absolute : l.source.isAbsolute = true)
    (output : '\\' ∉ l.output.chars) (isAbsolute : file.isAbsolute = true)
    (plain : '\\' ∉ file.chars) : '\\' ∉ (l.outputFor file).chars := by
  have below : ∀ relative, l.sourceRelative? file = some relative → '\\' ∉ relative.chars := by
    intro relative found mem
    rw [sourceRelative?] at found
    by_cases starts : file.startsWith l.source = true
    · obtain ⟨rest, hrest⟩ := startsWith_iff.mp starts
      obtain ⟨q, hq, -, -, chars⟩ := below?_eq_some absolute hrest.symm
      rw [hq] at found
      exact plain (chars _ (Option.some.inj found ▸ mem))
    · rw [below?, if_neg starts] at found
      simp at found
  have name : '\\' ∉ (⟨file.fileName?.getD ""⟩ : Path).chars := by
    intro mem
    cases hname : file.fileName? with
    | none => simp [hname] at mem
    | some s =>
      rw [hname] at mem
      have found : .name s ∈ file.components := by
        unfold Path.fileName? at hname
        split at hname
        · rename_i t last
          obtain rfl := Option.some.inj hname
          exact List.mem_of_getLast? last
        · simp at hname
      exact plain (mem_of_name isAbsolute found mem)
  have joined : ∀ relative : Path, '\\' ∉ relative.chars →
      '\\' ∉ ((l.output.join relative).withExtension outputExtension).chars := by
    intro relative free mem
    rcases mem_withExtension mem with mem | dot | mem
    · rcases mem_join mem with mem | slash | mem
      · exact output mem
      · exact absurd slash (by decide)
      · exact free mem
    · exact absurd dot (by decide)
    · exact absurd mem (by decide)
  unfold outputFor
  cases found : l.sourceRelative? file with
  | some relative => exact joined relative (below relative found)
  | none => exact joined _ name

/-- What a reference names is an absolute path, however it is written. -/
theorem isAbsolute_of_mem_candidates (absolute : l.source.isAbsolute = true) {relative : Path}
    (mem : file ∈ l.candidates relative) : file.isAbsolute = true := by
  have base : (l.source.join relative).normalize.isAbsolute = true := by
    rcases normalize_resolved (join_isAbsolute relative absolute) with ⟨a, ha, eq⟩ | ⟨absolute, -⟩
    · rw [eq]
      exact (leadsTo_pathOf ha).isAbsolute
    · exact absolute
  obtain ⟨cs, hcs⟩ := isAbsolute_iff.mp base
  unfold candidates at mem
  simp only at mem
  split at mem
  · simp at mem
  · split at mem
    · obtain rfl := List.mem_singleton.mp mem
      exact base
    · obtain ⟨e, -, rfl⟩ := List.mem_map.mp mem
      rw [hcs]
      exact isAbsolute_iff.mpr ⟨_, chars_ofChars _⟩

theorem isAbsolute_of_findSource? (absolute : l.source.isAbsolute = true) {files : FileSystem}
    {relative : Path} (found : files.findSource? l relative = some file) :
    file.isAbsolute = true :=
  isAbsolute_of_mem_candidates absolute (List.mem_of_find?_eq_some found)

end Layout

namespace Resolver

variable (r : Resolver)

/-- The directory of the output to which the document is written. -/
def outputDirectory : Path := (r.layout.outputFor r.source).parent?.getD r.layout.output

/-- A path leads from the directory of the document's output to the output of a template. -/
structure Leads (target relative : Path) : Prop where
  isRelative : relative.isAbsolute = false
  normalized : (r.outputDirectory.join relative).normalize =
    (r.layout.outputFor target).normalize
  exact : .up ∉ (r.layout.outputFor target).components →
    (r.outputDirectory.join relative).normalize.same (r.layout.outputFor target) = true

/-- What is written for a fragment of another document. -/
def fragmentText : Option (List Char) → List Char
  | some fragment => '#' :: fragment
  | none => []

/-- What takes the place of a reference: the fragment when there is no path; a path to the output of
the template that is found, with the fragment; or the text between the parentheses. -/
inductive Replaces (ref : Reference) : List Char → Prop where
  | fragment {fragment : List Char} : ref.splitFragment = ([], some fragment) →
      Replaces ref ref.path
  | found {path : List Char} {fragment : Option (List Char)} {target : Path} (relative : Path) :
      ref.splitFragment = (path, fragment) → (path = [] → fragment = none) →
      r.files.findSource? r.layout (relativePath ref.nameSpace path) = some target →
      ('\\' ∉ target.chars → r.Leads target relative) →
      Replaces ref (relative.chars ++ fragmentText fragment)
  | missing {path : List Char} {fragment : Option (List Char)} :
      ref.splitFragment = (path, fragment) → (path = [] → fragment = none) →
      r.files.findSource? r.layout (relativePath ref.nameSpace path) = none →
      Replaces ref ref.inner

variable {r} {S T D : Place} {name : String}

theorem replacement?_of_fragment {ref : Reference} {fragment : List Char}
    (split : ref.splitFragment = ([], some fragment)) : r.replacement? ref = some ref.path := by
  rw [replacement?, split]

theorem replacement?_of_path {ref : Reference} {path : List Char} {fragment : Option (List Char)}
    (split : ref.splitFragment = (path, fragment)) (named : path = [] → fragment = none) :
    r.replacement? ref =
      (r.files.findSource? r.layout (relativePath ref.nameSpace path)).map fun target =>
        (r.layout.outputReference r.source target).toList ++ fragmentText fragment := by
  unfold replacement?
  rw [split]
  cases path with
  | nil =>
    obtain rfl := named rfl
    rfl
  | cons c path => cases fragment <;> rfl

section

variable (source : r.layout.source.LeadsTo S) (output : r.layout.output.LeadsTo T)
  (inside : r.source.LeadsTo (S ++ D ++ [name]))
include source output inside

theorem leads_relativeTo (target : Path) :
    r.Leads target ((r.layout.outputFor target).relativeTo r.outputDirectory) := by
  have directory : r.outputDirectory.LeadsTo (T ++ D) :=
    Layout.outputDirectory_leadsTo source output inside
  have absolute := Layout.outputFor_isAbsolute output.isAbsolute target
  have normalized := normalize_join_relativeTo directory absolute
  refine ⟨isAbsolute_ofComponents (isStep_stepsFrom directory.isAbsolute absolute), normalized, ?_⟩
  intro noUp
  obtain ⟨place, leads⟩ := leadsTo_of_not_mem_up absolute noUp
  rw [normalized, leads.normalize]
  exact ((leadsTo_pathOf leads.valid).same_iff leads).mpr rfl

/-- Without backslashes the text of a reference is the path that leads to the output. -/
theorem leads_outputReference {target : Path} (plain : '\\' ∉ (r.layout.outputFor target).chars) :
    r.Leads target ⟨r.layout.outputReference r.source target⟩ := by
  have directory : r.outputDirectory.LeadsTo (T ++ D) :=
    Layout.outputDirectory_leadsTo source output inside
  have absolute := Layout.outputFor_isAbsolute output.isAbsolute target
  have clean : '\\' ∉ ((r.layout.outputFor target).relativeTo r.outputDirectory).chars := by
    intro mem
    rcases mem_relativeTo absolute directory.isAbsolute mem with slash | dot | mem
    · exact absurd slash (by decide)
    · exact absurd dot (by decide)
    · exact plain mem
  have text : (⟨r.layout.outputReference r.source target⟩ : Path) =
      (r.layout.outputFor target).relativeTo r.outputDirectory := by
    rw [Layout.outputReference, ← outputDirectory, clean_eq clean]
  rw [text]
  exact leads_relativeTo source output inside target

/-- Every reference gives way to what is due to it. -/
theorem replaces (plain : '\\' ∉ r.layout.output.chars) (ref : Reference) :
    r.Replaces ref (r.resolvePiece (.reference ref)) := by
  rw [resolvePiece]
  obtain ⟨path, fragment, split⟩ : ∃ path fragment, ref.splitFragment = (path, fragment) :=
    ⟨_, _, rfl⟩
  by_cases named : path = [] → fragment = none
  · rw [replacement?_of_path split named]
    cases found : r.files.findSource? r.layout (relativePath ref.nameSpace path) with
    | none => exact .missing split named found
    | some target =>
      refine .found ⟨r.layout.outputReference r.source target⟩ split named found ?_
      intro plainTarget
      have absolute := Layout.isAbsolute_of_findSource? source.isAbsolute found
      exact leads_outputReference source output inside
        (Layout.backslash_not_mem_outputFor source.isAbsolute plain absolute plainTarget)
  · rw [Classical.not_imp] at named
    obtain ⟨rfl, given⟩ := named
    obtain ⟨text, rfl⟩ := Option.ne_none_iff_exists'.mp given
    rw [replacement?_of_fragment split]
    exact .fragment split

end

/-! ## Texts and documents -/

theorem resolveText_of_tokenless {text : String}
    (free : ∀ before d ref behind, ref.IsToken →
      text ≠ before ++ String.ofList (token d ref) ++ behind) : r.resolveText text = text := by
  have pieces : pieces text.toList = text.toList.map .char := by
    apply pieces_of_tokenless
    intro front d ref behind isToken eq
    refine free (String.ofList front) d ref (String.ofList behind) isToken ?_
    rw [← String.ofList_append, ← String.ofList_append, ← eq, String.ofList_toList]
  have chars : ∀ cs : List Char, (cs.map Piece.char).flatMap r.resolvePiece = cs := by
    intro cs
    induction cs with
    | nil => rfl
    | cons c cs ih => rw [List.map_cons, List.flatMap_cons, ih, resolvePiece, List.singleton_append]
  rw [resolveText, pieces, chars, String.ofList_toList]

theorem resolveText_around {before behind : String} {d : Bool} {ref : Reference}
    (isToken : ref.IsToken) (apart : d = false → before.toList.getLast? ≠ some '$') :
    r.resolveText (before ++ String.ofList (token d ref) ++ behind) =
      r.resolveText before ++ String.ofList (r.resolvePiece (.reference ref)) ++
        r.resolveText behind := by
  unfold resolveText
  rw [String.toList_append, String.toList_append, String.toList_ofList,
    pieces_around isToken apart, List.flatMap_append, List.flatMap_cons, String.ofList_append,
    String.ofList_append, String.append_assoc]

/-- Every token is replaced by what is due to it, and nothing else in a text changes. Of a document
only the strings change, and permissions go. -/
theorem resolve_references (source : r.layout.source.LeadsTo S)
    (output : r.layout.output.LeadsTo T) (plain : '\\' ∉ r.layout.output.chars)
    (inside : r.source.LeadsTo (S ++ D ++ [name])) :
    (∀ document, r.resolveNode document =
      document.rewrite r.resolved id (Ordered.only staysResolved)) ∧
    (∀ text, (∀ before d ref behind, ref.IsToken →
        text ≠ before ++ String.ofList (token d ref) ++ behind) → r.resolveText text = text) ∧
    (∀ before d ref behind, ref.IsToken → (d = false → before.toList.getLast? ≠ some '$') →
      ∃ replacement, r.Replaces ref replacement ∧
        r.resolveText (before ++ String.ofList (token d ref) ++ behind) =
          r.resolveText before ++ String.ofList replacement ++ r.resolveText behind) ∧
    ∀ target E file, target.LeadsTo (S ++ E ++ [file]) → target.stem ≠ "." →
      (r.layout.outputFor target).LeadsTo (T ++ E ++ [target.stem ++ ".json"]) := by
  refine ⟨r.resolveNode_eq, fun text => resolveText_of_tokenless, ?_, ?_⟩
  · intro before d ref behind isToken apart
    exact ⟨_, replaces source output inside plain ref, resolveText_around isToken apart⟩
  · intro target E file leads solid
    exact Layout.outputFor_leadsTo source output leads solid

/-- A document in one directory of the source tree, and a template in another. -/
def neighbours : Resolver where
  layout := ⟨⟨"/s"⟩, ⟨"/o"⟩⟩
  files := ⟨[], [(["s"], .directory), (["s", "a"], .directory), (["s", "b"], .directory),
    (["s", "a", "x.yml"], .file (.text "")), (["s", "b", "y.yml"], .file (.text ""))]⟩
  source := ⟨"/s/a/x.yml"⟩

theorem resolve_references_neighbours :
    (neighbours.layout.source.LeadsTo ["s"] ∧ neighbours.layout.output.LeadsTo ["o"] ∧
      '\\' ∉ neighbours.layout.output.chars ∧
      neighbours.source.LeadsTo (["s"] ++ ["a"] ++ ["x.yml"])) ∧
    (∃ replacement, neighbours.Replaces ⟨['b'], ['y', '#', '/', 'd']⟩ replacement ∧
      neighbours.resolveText "see $ref(b:y#/d), not ref(:z)" =
        neighbours.resolveText "see " ++ String.ofList replacement ++
          neighbours.resolveText ", not ref(:z)") ∧
    neighbours.resolveText "see $ref(b:y#/d), not ref(:z)" = "see ../b/y.json#/d, not :z" := by
  have source : neighbours.layout.source.LeadsTo ["s"] := by decide
  have output : neighbours.layout.output.LeadsTo ["o"] := by decide
  have plain : '\\' ∉ neighbours.layout.output.chars := by decide
  have inside : neighbours.source.LeadsTo (["s"] ++ ["a"] ++ ["x.yml"]) := by decide
  obtain ⟨-, -, around, -⟩ := resolve_references source output plain inside
  refine ⟨⟨source, output, plain, inside⟩, ?_, by decide +kernel⟩
  exact around "see " true ⟨['b'], ['y', '#', '/', 'd']⟩ ", not ref(:z)" (by decide) (by decide)

/-- Templates of which one has a name that is `..` without its extension. -/
def dotted : Resolver where
  layout := ⟨⟨"/s"⟩, ⟨"/o"⟩⟩
  files := ⟨[], [(["s"], .directory), (["s", "a.yml"], .file (.text "")),
    (["s", "b.yml"], .file (.text "")), (["s", "..yml"], .file (.text ""))]⟩
  source := ⟨"/s/a.yml"⟩

/-- A permission does not stay in the document. The path written for a template whose output ends in
`..` does not resolve to that output, and neither does one from a source whose path has `..` in
it. -/
theorem resolve_references_exceptions :
    dotted.resolveNode (.object [("$NO_REF_CHECK", .bool true), ("x", .null)]) =
      .object [("x", .null)] ∧
    (dotted.files.findSource? dotted.layout (relativePath [] ['.', '.', 'y', 'm', 'l']) =
        some ⟨"/s/..yml"⟩ ∧
      dotted.resolveText "ref(:..yml)" = ".." ∧
      (dotted.outputDirectory.join ⟨".."⟩).normalize.same (dotted.layout.outputFor ⟨"/s/..yml"⟩) =
        false) ∧
    ({ dotted with source := ⟨"/s/d/../a.yml"⟩ } : Resolver).resolveText "ref(:b)" =
        "../../b.json" ∧
      ((({ dotted with source := ⟨"/s/d/../a.yml"⟩ } : Resolver).outputDirectory.join
        ⟨"../../b.json"⟩).normalize.same (dotted.layout.outputFor ⟨"/s/b.yml"⟩)) = false := by
  refine ⟨?_, ⟨by decide +kernel, by decide +kernel, by decide +kernel⟩, by decide +kernel,
    by decide +kernel⟩
  simp [resolveNode, resolveFields, Directive.noRefCheckKey]

end Resolver

end SchemaLoom
