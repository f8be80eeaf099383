import RatingFactors.Proofs.Ratings.EdgeFiles
import RatingFactors.Proofs.Ratings.Moving

/-!
# Strict and lenient reading of edge files

A line of an edge file is blank, an edge, or malformed.  Blank lines are passed
over, and so are malformed ones by a lenient reader, which counts them.  A
strict reader stops at the first malformed line, in the order of the files and
of the lines in them; it says which file and which line that is.  Where there is
none, the two readers read the same.

Both need something to read: the file that the path names, or the files of the
folder that it names, hidden ones left out.

## Main definitions

* `isMalformed` — the lines that are neither blank nor edges.
* `Fault` — a malformed line, and where it stands.
* `visibleFiles` — the files that are read for a path, in order.
* `Attempt.Fails` — work that fails from every state.

## Main results

* `isMalformed_iff` — malformed lines in terms of the grammar.
* `readEdges_lenient`, `readEdges_strict` — what is read of one file.
* `collect_strict` — what is read of several files.
* `strict_and_lenient` — both readers on the same path.
-/

namespace RatingFactors

namespace Attempt

variable {s β γ ι : Type}

/-- The work fails for this reason, whatever state it begins in. -/
def Fails (work : Attempt s β) (cause : Failure) : Prop :=
  ∀ state, (work.perform state).1 = .error cause

private theorem fails_lift {answer : Except Failure β} {cause : Failure}
    (h : answer = .error cause) : Fails (lift answer : Attempt s β) cause :=
  fun state => by rw [perform_lift, h]

theorem Fails.bind {work : Attempt s β} {cause : Failure} (h : work.Fails cause)
    (next : β → Attempt s γ) : (work >>= next).Fails cause := by
  intro state
  have hfail := h state
  rw [perform_bind]
  cases hrun : work.perform state with
  | mk answer reached =>
      rw [hrun] at hfail
      obtain rfl : answer = .error cause := hfail
      rfl

private theorem Gives.bind_fails {work : Attempt s β} {next : β → Attempt s γ}
    {middle : β} {cause : Failure} (hwork : work.Gives middle)
    (hnext : (next middle).Fails cause) : (work >>= next).Fails cause := by
  intro state
  obtain ⟨reached, hmiddle⟩ := hwork state
  rw [perform_bind, hmiddle]
  exact hnext reached

end Attempt

namespace Ratings

open Text

/-! ## Lines -/

/-- Is the line neither blank nor an edge? -/
def isMalformed (line : List Char) : Bool :=
  !line.all isBlank && (EdgeLine.parse? line).isNone

/-- A malformed line, and where it stands. -/
structure Fault where
  path : String
  number : Nat
  line : List Char

/-- What a strict reader says of a malformed line. -/
def Fault.failure (fault : Fault) : Failure :=
  .malformedLine fault.path fault.number (String.ofList fault.line)

/-- The edges among lines, in order. -/
def edgesOf (lines : List (List Char)) : List EdgeLine :=
  lines.filterMap EdgeLine.parse?

/-- The malformed lines of a file, in order; the first line has the given
number, and every line counts. -/
def faultsFrom (path : String) (number : Nat) (lines : List (List Char)) :
    List Fault :=
  ((lines.zipIdx number).filter fun (line, _) => isMalformed line).map
    fun (line, number) => ⟨path, number, line⟩

private theorem parse?_of_blank {line : List Char}
    (h : line.all isBlank = true) : EdgeLine.parse? line = none := by
  have hnothing : trimLeft line = [] :=
    List.dropWhile_eq_nil_iff.mpr fun c hc => List.all_eq_true.mp h c hc
  rw [EdgeLine.parse?, hnothing]
  rfl

/-- A line is malformed if it is not blank and the grammar does not spell it. -/
theorem isMalformed_iff (line : List Char) :
    isMalformed line = true ↔
      line.all isBlank = false ∧ ¬ ∃ p : LineParts, p.Spells line := by
  rw [isMalformed, Bool.and_eq_true, Bool.not_eq_true',
    Option.isNone_iff_eq_none]
  refine and_congr_right fun _ => ⟨?_, fun h => ?_⟩
  · rintro hnone ⟨p, hp⟩
    obtain ⟨e, he, -⟩ := hp.parse
    rw [hnone] at he
    cases he
  · cases hparse : EdgeLine.parse? line with
    | none => rfl
    | some e => exact absurd (LineParts.spells_of_parse? hparse) h

/-- A line is passed over, read, or malformed. -/
theorem line_cases (line : List Char) :
    (line.all isBlank = true ∧ EdgeLine.parse? line = none ∧
        isMalformed line = false) ∨
      (∃ e, line.all isBlank = false ∧ EdgeLine.parse? line = some e ∧
        isMalformed line = false) ∨
      (line.all isBlank = false ∧ EdgeLine.parse? line = none ∧
        isMalformed line = true) := by
  cases hblank : line.all isBlank with
  | true =>
      exact .inl ⟨rfl, parse?_of_blank hblank, by simp [isMalformed, hblank]⟩
  | false =>
      cases hparse : EdgeLine.parse? line with
      | some e => exact .inr (.inl ⟨e, rfl, rfl, by simp [isMalformed, hparse]⟩)
      | none =>
          exact .inr (.inr ⟨rfl, rfl, by simp [isMalformed, hblank, hparse]⟩)

/-! ## One file -/

section OneFile

variable {path : String} {number : Nat} {line : List Char}
  {rest : List (List Char)}

private theorem faultsFrom_cons_of_malformed (h : isMalformed line = true) :
    faultsFrom path number (line :: rest) =
      ⟨path, number, line⟩ :: faultsFrom path (number + 1) rest := by
  simp only [faultsFrom, List.zipIdx_cons, List.filter_cons, h, if_true,
    List.map_cons]

private theorem faultsFrom_cons_of_fine (h : isMalformed line = false) :
    faultsFrom path number (line :: rest) =
      faultsFrom path (number + 1) rest := by
  simp only [faultsFrom, List.zipIdx_cons, List.filter_cons, h,
    Bool.false_eq_true, if_false]

/-- A lenient reader reads every edge and counts the malformed lines. -/
theorem readEdges_lenient (path : String) (number : Nat)
    (lines : List (List Char)) :
    readEdges false path number lines =
      .ok ⟨edgesOf lines, (faultsFrom path number lines).length⟩ := by
  induction lines generalizing number with
  | nil => rfl
  | cons line rest ih =>
      rcases line_cases line with ⟨hblank, hparse, hfine⟩ |
        ⟨e, hblank, hparse, hfine⟩ | ⟨hblank, hparse, hmalformed⟩
      · rw [readEdges, hblank, if_pos rfl, ih, faultsFrom_cons_of_fine hfine,
          edgesOf, edgesOf, List.filterMap_cons_none hparse]
      · rw [readEdges, hblank, if_neg Bool.false_ne_true, hparse, ih,
          faultsFrom_cons_of_fine hfine, edgesOf, edgesOf,
          List.filterMap_cons_some hparse]
        rfl
      · rw [readEdges, hblank, if_neg Bool.false_ne_true, hparse, ih,
          faultsFrom_cons_of_malformed hmalformed, edgesOf, edgesOf,
          List.filterMap_cons_none hparse]
        rfl

/-- A strict reader reads every edge too, unless there is a malformed line; then
it fails for the first one. -/
theorem readEdges_strict (path : String) (number : Nat)
    (lines : List (List Char)) :
    readEdges true path number lines =
      match (faultsFrom path number lines).head? with
      | none => .ok ⟨edgesOf lines, 0⟩
      | some fault => .error fault.failure := by
  induction lines generalizing number with
  | nil => rfl
  | cons line rest ih =>
      rcases line_cases line with ⟨hblank, hparse, hfine⟩ |
        ⟨e, hblank, hparse, hfine⟩ | ⟨hblank, hparse, hmalformed⟩
      · rw [readEdges, hblank, if_pos rfl, ih, faultsFrom_cons_of_fine hfine,
          edgesOf, edgesOf, List.filterMap_cons_none hparse]
      · rw [readEdges, hblank, if_neg Bool.false_ne_true, hparse, ih,
          faultsFrom_cons_of_fine hfine, edgesOf, edgesOf,
          List.filterMap_cons_some hparse]
        cases (faultsFrom path (number + 1) rest).head? with
        | none => rfl
        | some fault => rfl
      · rw [readEdges, hblank, if_neg Bool.false_ne_true, hparse,
          faultsFrom_cons_of_malformed hmalformed]
        rfl

end OneFile

/-! ## The files of a path -/

section Paths

variable {κ : Type} {files : Files κ} {path p : String}

/-- The files that are read for a path, in order: the files of a folder but for
hidden ones, or the file itself. -/
def visibleFiles (files : Files κ) (path : String) : List String :=
  if files.isFolder path then (files.filesIn path).filter fun p => !isHidden p
  else if files.exists? path then [path]
  else []

/-- Of a folder the files that lie in it and are not hidden are read. -/
theorem mem_visibleFiles (hfolder : files.isFolder path = true) :
    p ∈ visibleFiles files path ↔
      (∃ entry, (p, entry) ∈ files.entries ∧
        Files.isFileIn path (p, entry) = true) ∧ isHidden p = false := by
  rw [visibleFiles, if_pos hfolder, List.mem_filter,
    (Files.filesIn_perm files path).mem_iff, List.mem_map, Bool.not_eq_true']
  refine and_congr_left fun _ => ⟨?_, ?_⟩
  · rintro ⟨⟨path', entry⟩, hmem, rfl⟩
    exact ⟨entry, List.mem_filter.mp hmem⟩
  · rintro ⟨entry, hmem⟩
    exact ⟨(p, entry), List.mem_filter.mpr hmem, rfl⟩

theorem pairwise_visibleFiles (files : Files κ) (path : String) :
    (visibleFiles files path).Pairwise (· ≤ ·) := by
  rw [visibleFiles]
  split
  · exact (Files.pairwise_filesIn ..).filter _
  · split
    · exact List.pairwise_singleton ..
    · exact .nil

private theorem edgePaths_of_visible (h : visibleFiles files path ≠ []) :
    edgePaths files path = .ok (visibleFiles files path) := by
  rw [visibleFiles] at h ⊢
  cases hfolder : files.isFolder path with
  | true =>
      rw [hfolder, if_pos rfl] at h
      rw [edgePaths, Files.exists?_of_isFolder hfolder, hfolder, if_pos rfl]
      exact if_neg (mt List.isEmpty_iff.mp h)
  | false =>
      rw [hfolder, if_neg Bool.false_ne_true] at h
      cases hexists : files.exists? path with
      | true =>
          rw [edgePaths, hexists, hfolder]
          rfl
      | false =>
          rw [hexists] at h
          exact absurd rfl h

private theorem edgePaths_of_none (h : visibleFiles files path = []) :
    ∃ cause : Failure, cause.kind = .absent ∧
      edgePaths files path = .error cause := by
  rw [visibleFiles] at h
  cases hfolder : files.isFolder path with
  | true =>
      rw [hfolder, if_pos rfl] at h
      refine ⟨.noEdgeFiles path, rfl, ?_⟩
      rw [edgePaths, Files.exists?_of_isFolder hfolder, hfolder,
        if_neg (by decide), if_pos rfl]
      exact if_pos (List.isEmpty_iff.mpr h)
  | false =>
      rw [hfolder, if_neg Bool.false_ne_true] at h
      cases hexists : files.exists? path with
      | true =>
          rw [hexists] at h
          cases h
      | false =>
          refine ⟨.dataMissing path, rfl, ?_⟩
          rw [edgePaths, hexists]
          rfl

end Paths

/-! ## Several files -/

section Files

variable {κ : Type} {files : Files κ} {path : String} {paths : List String}
  {texts : String → String}

open Attempt (Gives Fails)

/-- The edges of the file at a path. -/
def edgesIn (texts : String → String) (path : String) : List EdgeLine :=
  edgesOf (Text.lines (texts path))

/-- The malformed lines of the file at a path. -/
def faultsIn (texts : String → String) (path : String) : List Fault :=
  faultsFrom path 1 (Text.lines (texts path))

/-- The rows of the file at a path; the end of its name gives their role. -/
def rowsIn (texts : String → String) (path : String) : List (Rating Float) :=
  (edgesIn texts path).map (rowOf (roleOf path))

private theorem loadFile_lenient
    (htext : files.readText path = .ok (texts path)) :
    (loadFile files false path).Gives
      (roleOf path, ⟨edgesIn texts path, (faultsIn texts path).length⟩) :=
  (Attempt.gives_lift htext).bind
    ((Attempt.gives_lift
      (readEdges_lenient path 1 (Text.lines (texts path)))).bind
      ((Attempt.gives_tell _).bind (Attempt.gives_pure _)))

private theorem loadFile_strict (htext : files.readText path = .ok (texts path))
    (h : faultsIn texts path = []) :
    (loadFile files true path).Gives
      (roleOf path, ⟨edgesIn texts path, 0⟩) := by
  have hread := readEdges_strict path 1 (Text.lines (texts path))
  rw [← faultsIn, h] at hread
  exact (Attempt.gives_lift htext).bind ((Attempt.gives_lift hread).bind
    ((Attempt.gives_tell _).bind (Attempt.gives_pure _)))

private theorem loadFile_fails {fault : Fault} {others : List Fault}
    (htext : files.readText path = .ok (texts path))
    (h : faultsIn texts path = fault :: others) :
    (loadFile files true path).Fails fault.failure := by
  have hread := readEdges_strict path 1 (Text.lines (texts path))
  rw [← faultsIn, h] at hread
  exact (Attempt.gives_lift htext).bind_fails
    ((Attempt.fails_lift hread).bind _)

/-- A strict reader reads all files, unless one has a malformed line; then it
fails for the first such line of the first such file. -/
theorem collect_strict
    (htexts : ∀ p ∈ paths, files.readText p = .ok (texts p)) :
    (paths.flatMap (faultsIn texts) = [] →
      (Attempt.collect paths (loadFile files true)).Gives
        (paths.map fun p => (roleOf p, ⟨edgesIn texts p, 0⟩))) ∧
    ∀ fault others, paths.flatMap (faultsIn texts) = fault :: others →
      (Attempt.collect paths (loadFile files true)).Fails fault.failure := by
  induction paths with
  | nil => exact ⟨fun _ => Attempt.gives_pure [], fun _ _ h => nomatch h⟩
  | cons p rest ih =>
      obtain ⟨hgives, hfails⟩ := ih fun q hq => htexts q (by simp [hq])
      have htext := htexts p (by simp)
      rw [List.flatMap_cons]
      cases hfaults : faultsIn texts p with
      | nil =>
          have hfirst := loadFile_strict htext hfaults
          refine ⟨fun h => ?_, fun fault others h => ?_⟩
          · exact hfirst.bind ((hgives h).bind (Attempt.gives_pure _))
          · exact hfirst.bind_fails ((hfails fault others h).bind _)
      | cons fault others =>
          refine ⟨fun h => (nomatch h), fun first more h => ?_⟩
          obtain rfl : fault = first := (List.cons.inj h).1
          exact (loadFile_fails htext hfaults).bind _

/-- Once all files have been read, the table has their rows, with moved columns
if asked to. -/
theorem loadEdges_of_edges {strict : Bool} {skipped : String → Nat}
    (hpaths : edgePaths files path = .ok paths)
    (hsmall : ∀ p ∈ paths, ∀ e ∈ edgesIn texts p,
      e.source < signBit ∧ e.target < signBit)
    (hcollect : (Attempt.collect paths (loadFile files strict)).Gives
      (paths.map fun p => (roleOf p, ⟨edgesIn texts p, skipped p⟩)))
    (moved : Bool) :
    (loadEdges files moved strict path).Gives
      ⟨(paths.flatMap (rowsIn texts)).map (movedRow moved),
        (paths.map skipped).sum⟩ := by
  have hloaded := loadEdges_of_collect hpaths hsmall hcollect moved
  change (loadEdges files moved strict path).Gives
    ⟨movedIf moved (paths.flatMap (rowsIn texts)), _⟩ at hloaded
  rwa [movedIf_eq_map] at hloaded

end Files

/-! ## Both readers -/

section Both

variable {κ : Type} {files : Files κ} {path : String} {texts : String → String}

private theorem load_edgeFiles {moved strict : Bool} {source : Source}
    (h : Source.make "edgelist" [("remap_target", .flag moved),
      ("strict", .flag strict)] = .ok source) :
    source.load files path = loadEdges files moved strict (Path.tidy path) := by
  rw [make_edgeFiles (.inl rfl)] at h
  obtain rfl := Except.ok.inj h
  rfl

/-- A lenient and a strict reader on the same path, where every file is a text
and no edge has an identifier that needs the sign bit.

If there is no file to read, both fail for the lack of it.  Otherwise the
lenient one gives the rows of all files, file after file and line after line,
and the number of malformed lines.  The strict one gives the same rows if there
is no malformed line, and otherwise fails for the first one, with its file, its
number and its text.  Moving columns changes the targets of the rows and nothing
else. -/
theorem strict_and_lenient {moved : Bool} {lenient strict : Source}
    (hlenient : Source.make "edgelist" [("remap_target", .flag moved),
      ("strict", .flag false)] = .ok lenient)
    (hstrict : Source.make "edgelist" [("remap_target", .flag moved),
      ("strict", .flag true)] = .ok strict)
    (htexts : ∀ p ∈ visibleFiles files (Path.tidy path),
      files.readText p = .ok (texts p))
    (hsmall : ∀ p ∈ visibleFiles files (Path.tidy path), ∀ e ∈ edgesIn texts p,
      e.source < signBit ∧ e.target < signBit) :
    let paths := visibleFiles files (Path.tidy path)
    let rows := (paths.flatMap (rowsIn texts)).map (movedRow moved)
    let faults := paths.flatMap (faultsIn texts)
    (paths = [] → ∃ cause : Failure, cause.kind = .absent ∧
        (lenient.load files path).Fails cause ∧
        (strict.load files path).Fails cause) ∧
      (paths ≠ [] →
        (lenient.load files path).Gives ⟨rows, faults.length⟩ ∧
        (faults = [] → (strict.load files path).Gives ⟨rows, 0⟩) ∧
        ∀ first others, faults = first :: others →
          (strict.load files path).Fails first.failure) := by
  rw [load_edgeFiles hlenient, load_edgeFiles hstrict]
  intro paths rows faults
  refine ⟨fun hnone => ?_, fun hsome => ?_⟩
  · obtain ⟨cause, hkind, hpaths⟩ := edgePaths_of_none hnone
    have hfails := (Attempt.fails_lift (s := List String) hpaths)
    exact ⟨cause, hkind, hfails.bind _, hfails.bind _⟩
  · have hpaths := edgePaths_of_visible hsome
    obtain ⟨hgives, hfails⟩ := collect_strict htexts
    refine ⟨?_, fun hclean => ?_, fun first others hfaults => ?_⟩
    · have hall := loadEdges_of_edges hpaths hsmall
        (Attempt.gives_collect fun p hp => loadFile_lenient (htexts p hp)) moved
      rwa [← List.length_flatMap] at hall
    · have hall := loadEdges_of_edges hpaths hsmall (hgives hclean) moved
      rwa [List.map_const', List.sum_replicate, smul_zero] at hall
    · exact (Attempt.gives_lift hpaths).bind_fails
        ((hfails first others hfaults).bind _)

/-- A file with an edge on its first line and a malformed third line. -/
def spoiledFiles : Files Unit :=
  Files.none.writeText "ratings.validate" "7 8\n\nx\n"

/-- What stands in this file. -/
def spoiledText (_ : String) : String :=
  "7 8\n\nx\n"

private theorem visibleFiles_spoiledFiles :
    visibleFiles spoiledFiles (Path.tidy "ratings.validate") =
      ["ratings.validate"] := by
  decide +kernel

private theorem readText_spoiledFiles :
    ∀ p ∈ visibleFiles spoiledFiles (Path.tidy "ratings.validate"),
      spoiledFiles.readText p = .ok (spoiledText p) := by
  intro p hp
  rw [visibleFiles_spoiledFiles, List.mem_singleton] at hp
  rw [hp]
  exact Files.readText_writeText (by decide +kernel) _

/-- The lenient reader gives the one row and counts the one malformed line, and
the strict one fails for the third line. -/
theorem strict_and_lenient_sample :
    ∃ lenient strict : Source,
      Source.make "edgelist" [("remap_target", .flag false),
        ("strict", .flag false)] = .ok lenient ∧
      Source.make "edgelist" [("remap_target", .flag false),
        ("strict", .flag true)] = .ok strict ∧
      (lenient.load spoiledFiles "ratings.validate").Gives
        ⟨[⟨7, 8, 0.0, .validate⟩], 1⟩ ∧
      (strict.load spoiledFiles "ratings.validate").Fails
        (.malformedLine "ratings.validate" 3 "x\n") := by
  obtain ⟨-, hread⟩ := strict_and_lenient
    (make_edgeFiles (.inl rfl) false false)
      (make_edgeFiles (.inl rfl) false true)
    readText_spoiledFiles fun p _ => by
      change ∀ e ∈ edgesOf (Text.lines "7 8\n\nx\n"), _
      decide +kernel
  rw [visibleFiles_spoiledFiles] at hread
  obtain ⟨hlenient, -, hstrict⟩ := hread (by decide)
  have hrole : roleOf "ratings.validate" = .validate := by decide +kernel
  have hedges : edgesIn spoiledText "ratings.validate" = [⟨7, 8, 0.0⟩] := by rfl
  have hrows : (["ratings.validate"].flatMap (rowsIn spoiledText)).map
      (movedRow false) = [⟨7, 8, 0.0, .validate⟩] := by
    rw [List.flatMap_singleton, rowsIn, hedges, hrole]
    rfl
  have hfault : ["ratings.validate"].flatMap (faultsIn spoiledText) =
      [⟨"ratings.validate", 3, ['x', '\n']⟩] := by
    rfl
  rw [hrows, hfault] at hlenient
  exact ⟨_, _, make_edgeFiles (.inl rfl) false false,
    make_edgeFiles (.inl rfl) false true, hlenient, hstrict _ _ hfault⟩

end Both

end Ratings

end RatingFactors
