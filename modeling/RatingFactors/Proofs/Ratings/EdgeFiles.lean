import Mathlib.Data.List.Nodup
import RatingFactors.Proofs.Attempt
import RatingFactors.Proofs.Decimal.ReadBack
import RatingFactors.Proofs.Files
import RatingFactors.Proofs.Ratings.EdgeGrammar
import RatingFactors.Proofs.Text.Lines
import RatingFactors.Ratings.Source

/-!
# Edge files, written and read back

A table is written as one file for each role.  Each of its rows becomes a line
of the grammar of edge lines; the role goes into the end of the file's name and
comes back from there.  What is loaded from the folder is the table again, but
its rows stand in the order of the files' names: those to predict, those to
learn from, those to validate with.

Hidden files in the folder do no harm, since the reader leaves them out.

## Main results

* `Writable.parse` — the line of a row is read as that row.
* `ofFileName_roleName` — the role comes back from the name.
* `edgePaths_writeEdges` — which files are found, and in which order.
* `loadEdges_writeEdges`, `edgeFiles_roundtrip` — there and back.
-/

namespace RatingFactors.Ratings

open Text Decimal

/-! ## Rows as lines -/

/-- A row that an edge file can keep: identifiers without the sign bit, a finite
value, and one of the three roles. -/
structure Writable (r : Rating Float) : Prop where
  source : 0 ≤ r.source.toInt
  target : 0 ≤ r.target.toInt
  finite : r.value.isFinite = true
  role : r.role.isKnown = true

/-- What an edge line says of a row. -/
def lineOf (r : Rating Float) : EdgeLine :=
  ⟨r.source.toNatClampNeg, r.target.toNatClampNeg, r.value⟩

/-- The parts of the line of a row. -/
def partsOf (r : Rating Float) : LineParts :=
  ⟨Nat.toDigits 10 r.source.toNatClampNeg,
    Nat.toDigits 10 r.target.toNatClampNeg, some (text r.value).toList⟩

/-- The line of a row, without its end. -/
def bodyOf (r : Rating Float) : List Char :=
  Nat.toDigits 10 r.source.toNatClampNeg ++ ['\t'] ++
    Nat.toDigits 10 r.target.toNatClampNeg ++ ['\t'] ++ (text r.value).toList

private theorem toList_toString {n : Int} (h : 0 ≤ n) :
    (toString n).toList = Nat.toDigits 10 n.toNat := by
  obtain ⟨m, rfl⟩ := Int.eq_ofNat_of_zero_le h
  have htext : toString (m : Int) = toString m := rfl
  rw [htext, Nat.toString_eq_ofList_toDigits, String.toList_ofList,
    Int.toNat_natCast]

private theorem isSeparator_tab : IsSeparator ['\t'] := by
  refine .blanks (by simp) fun c hc => ?_
  rw [List.mem_singleton.mp hc]
  decide

namespace Writable

variable {r : Rating Float}

private theorem toList_edgeText (h : Writable r) :
    (edgeText r).toList = bodyOf r ++ ['\n'] := by
  have hcell : Scalar.cell r.value = text r.value :=
    if_neg (Bool.eq_false_iff.mp (isNaN_of_isFinite h.finite))
  simp only [edgeText, hcell, String.toList_append, toList_toString h.source,
    toList_toString h.target, bodyOf]
  rfl

/-- The line of a row is an edge line. -/
theorem spells (h : Writable r) : (partsOf r).Spells (edgeText r).toList := by
  obtain ⟨w, hw⟩ := spells_text h.finite
  have hend : ∀ c ∈ ['\n'], isBlank c = true := by
    intro c hc
    rw [List.mem_singleton.mp hc]
    decide
  have hspells := @LineParts.Spells.mk [] _ _ _ _ _ _ (by simp)
    (isNumeral_toDigits r.source.toNatClampNeg) isSeparator_tab
    (isNumeral_toDigits r.target.toNatClampNeg)
    (.valued isSeparator_tab hw) hend
  rw [h.toList_edgeText, bodyOf, partsOf]
  simpa only [List.append_assoc, List.nil_append] using hspells

private theorem wholeOfText?_toDigits (n : Nat) :
    wholeOfText? (String.ofList (Nat.toDigits 10 n)) = some (n : Int) := by
  rw [wholeOfText?_of_isNumeral (isNumeral_toDigits n), valueOfDigits_toDigits]

/-- The parts of the line of a row mean that row. -/
theorem means (h : Writable r) : (partsOf r).Means (lineOf r) where
  source := wholeOfText?_toDigits _
  target := wholeOfText?_toDigits _
  value := by
    rw [partsOf, valueOf?, String.ofList_toList]
    exact doubleOfText?_text h.finite

/-- The line of a row is read as what it says. -/
theorem parse (h : Writable r) :
    EdgeLine.parse? (edgeText r).toList = some (lineOf r) := by
  obtain ⟨e, hparse, hmeans⟩ := h.spells.parse
  rw [hparse, hmeans.eq h.means]

private theorem isDecimalChar_of_mem_bodyOf (h : Writable r) {c : Char}
    (hc : c ∈ bodyOf r) : isDecimalChar c = true ∨ c = '\t' := by
  obtain ⟨w, hw⟩ := spells_text h.finite
  simp only [bodyOf, List.append_assoc, List.mem_append,
    List.mem_singleton] at hc
  rcases hc with hsource | htab | htarget | htab | hvalue
  · exact .inl ((isNumeral_toDigits _).isDecimalChar c hsource)
  · exact .inr htab
  · exact .inl ((isNumeral_toDigits _).isDecimalChar c htarget)
  · exact .inr htab
  · exact .inl (hw.isDecimalChar c hvalue)

/-- Nothing in the line of a row ends a line, but for the line feed. -/
theorem isLine (h : Writable r) : IsLine (edgeText r).toList := by
  have hends : ∀ c, c ∈ bodyOf r → c ≠ '\n' ∧ c ≠ '\r' := by
    intro c hc
    rcases h.isDecimalChar_of_mem_bodyOf hc with hdecimal | rfl
    · exact ⟨ne_of_isDecimalChar hdecimal (by decide),
        ne_of_isDecimalChar hdecimal (by decide)⟩
    · decide
  exact ⟨bodyOf r, h.toList_edgeText, fun hmem => (hends _ hmem).1 rfl,
    fun hmem => (hends _ hmem).2 rfl⟩

private theorem not_blank (h : Writable r) :
    (edgeText r).toList.all isBlank = false := by
  obtain ⟨d, ds, hds⟩ := List.exists_cons_of_ne_nil
    (isNumeral_toDigits r.source.toNatClampNeg).1
  have hd : isDigit d = true :=
    (isNumeral_toDigits r.source.toNatClampNeg).2 d (by simp [hds])
  simp [h.toList_edgeText, bodyOf, hds, isBlank_of_isDigit hd]

end Writable

/-- The lines of rows are read as what they say, and none is skipped. -/
theorem readEdges_edgeText {rows : List (Rating Float)}
    (h : ∀ r ∈ rows, Writable r) (strict : Bool) (path : String)
    (number : Nat) :
    readEdges strict path number (rows.map fun r => (edgeText r).toList) =
      .ok ⟨rows.map lineOf, 0⟩ := by
  induction rows generalizing number with
  | nil => rfl
  | cons r rows ih =>
      have hr : Writable r := h r (by simp)
      rw [List.map_cons, readEdges, hr.not_blank, if_neg Bool.false_ne_true,
        hr.parse, ih fun q hq => h q (by simp [hq])]
      rfl

/-! ## Names of edge files -/

/-- The name of the edge file for a role. -/
def roleName (stem : String) (role : Role) : String :=
  stem ++ "." ++ role.label

/-- What edge files may be named after. -/
structure IsStem (stem : String) : Prop where
  ne_empty : stem ≠ ""
  no_slash : '/' ∉ stem.toList
  not_hidden : stem.startsWith "." = false

private theorem endsWith_iff (s pattern : String) :
    s.endsWith pattern = true ↔ pattern.toList <:+ s.toList := by
  rw [String.endsWith_eq_endsWith_toSlice, String.Slice.endsWith_string_iff,
    String.copy_toSlice]

/-- A text does not end in what ends otherwise. -/
theorem endsWith_append_eq_false (front : String) {back pattern : String}
    (hlast : pattern.toList.getLast? ≠ back.toList.getLast?)
    (hpattern : pattern.toList ≠ []) (hback : back.toList ≠ []) :
    (front ++ back).endsWith pattern = false := by
  rw [Bool.eq_false_iff, Ne, endsWith_iff]
  rintro ⟨before, hbefore⟩
  have hends := congrArg List.getLast? hbefore
  rw [String.toList_append, List.getLast?_append_of_ne_nil _ hpattern,
    List.getLast?_append_of_ne_nil _ hback] at hends
  exact hlast hends

/-- The role is read off the name that it was written into. -/
theorem ofFileName_roleName (stem : String) {role : Role}
    (h : role.isKnown = true) :
    Role.ofFileName (roleName stem role) = role := by
  have hends : ∀ pattern, (stem ++ pattern).endsWith pattern = true := by
    intro pattern
    rw [endsWith_iff, String.toList_append]
    exact List.suffix_append ..
  cases role with
  | train =>
      have hname : roleName stem .train = stem ++ ".train" :=
        String.append_assoc
      rw [Role.ofFileName, hname,
        endsWith_append_eq_false stem (by decide) (by decide) (by decide),
        endsWith_append_eq_false stem (by decide) (by decide) (by decide)]
      rfl
  | validate =>
      have hname : roleName stem .validate = stem ++ ".validate" :=
        String.append_assoc
      rw [Role.ofFileName, hname, hends, if_pos rfl]
  | predict =>
      have hname : roleName stem .predict = stem ++ ".predict" :=
        String.append_assoc
      rw [Role.ofFileName, hname,
        endsWith_append_eq_false stem (by decide) (by decide) (by decide),
        hends]
      rfl
  | other label => cases h

namespace IsStem

variable {stem : String} {role : Role}

private theorem isPart (h : IsStem stem) (hrole : role.isKnown = true) :
    Path.IsPart (roleName stem role) where
  ne_empty := by
    intro hname
    have hstem := congrArg String.toList hname
    simp [roleName, h.ne_empty] at hstem
  ne_point := by
    intro hname
    have hlength := congrArg (fun s : String => s.toList.length) hname
    have hstem : 0 < stem.toList.length :=
      List.length_pos_iff.mpr (mt String.toList_eq_nil_iff.mp h.ne_empty)
    simp only [roleName, String.toList_append, List.length_append] at hlength
    have hpoint : ".".toList.length = 1 := rfl
    omega
  no_slash := by
    have hlabel : '/' ∉ role.label.toList := by
      cases role with
      | other => cases hrole
      | _ => decide
    simp [roleName, h.no_slash, hlabel]

/-- Edge files are not hidden. -/
theorem name_not_hidden (h : IsStem stem) (role : Role) :
    (roleName stem role).startsWith "." = false := by
  have hstem := h.not_hidden
  rw [Bool.eq_false_iff, Ne, String.startsWith_string_iff] at hstem ⊢
  obtain ⟨c, cs, hcs⟩ := List.exists_cons_of_ne_nil
    (mt String.toList_eq_nil_iff.mp h.ne_empty)
  simpa [roleName, hcs] using hstem

end IsStem

/-! ## The tree after writing -/

section Writing

variable {κ : Type} {files : Files κ} {folder stem : String}
  {rows : List (Rating Float)}

/-- Are there rows of this role? -/
def occurs (rows : List (Rating Float)) (role : Role) : Bool :=
  !(ofRole role rows).isEmpty

/-- The text of the edge file for a role. -/
def roleText (rows : List (Rating Float)) (role : Role) : String :=
  String.join ((ofRole role rows).map edgeText)

/-- The edge files of a table: their paths and their texts. -/
def roleFiles (folder stem : String) (rows : List (Rating Float))
    (roles : List Role) : List (String × String) :=
  (roles.filter (occurs rows)).map fun role =>
    (edgePath folder stem role, roleText rows role)

private theorem foldl_writeRole (roles : List Role) (w : Written κ) :
    (roles.foldl (writeRole folder stem rows) w).files =
        w.files.writeTexts (roleFiles folder stem rows roles) ∧
      (roles.foldl (writeRole folder stem rows) w).paths =
        w.paths ++ (roles.filter (occurs rows)).map fun role =>
          (role, edgePath folder stem role) := by
  induction roles generalizing w with
  | nil => simp [roleFiles, Files.writeTexts]
  | cons role roles ih =>
      obtain ⟨hfiles, hpaths⟩ := ih (writeRole folder stem rows w role)
      rw [List.foldl_cons, hfiles, hpaths, writeRole]
      by_cases hempty : (ofRole role rows).isEmpty = true
      · simp [hempty, roleFiles, occurs]
      · simp [hempty, roleFiles, occurs, Files.writeTexts, roleText]

private theorem writeEdges_files : (writeEdges files folder stem rows).files =
    (files.makeFolders (Path.tidy folder)).writeTexts
      (roleFiles folder stem rows Role.known) :=
  (foldl_writeRole ..).1

private theorem writeEdges_paths :
    (writeEdges files folder stem rows).paths =
      (Role.known.filter (occurs rows)).map fun role =>
        (role, edgePath folder stem role) :=
  (foldl_writeRole ..).2

private theorem name_edgePath (hstem : IsStem stem) {role : Role}
    (hrole : role.isKnown = true) :
    Path.name (edgePath folder stem role) = roleName stem role :=
  Path.name_join (hstem.isPart hrole)

private theorem parent_edgePath (hstem : IsStem stem) {role : Role}
    (hrole : role.isKnown = true) :
    Path.parent (edgePath folder stem role) = Path.tidy folder :=
  Path.parent_join (hstem.isPart hrole)

private theorem edgePath_ne (hstem : IsStem stem) {role : Role}
    (hrole : role.isKnown = true) :
    edgePath folder stem role ≠ Path.tidy folder := by
  have hlength : (Path.parts (Path.tidy folder)).length =
      (Path.parts folder).length := by
    rw [Path.parts_tidy]
  exact Path.join_ne_of_parts (hstem.isPart hrole) (Nat.le_of_eq hlength)

private theorem parts_edgePath_ne_nil (hstem : IsStem stem) {role : Role}
    (hrole : role.isKnown = true) :
    Path.parts (edgePath folder stem role) ≠ [] := by
  rw [edgePath, ← roleName, Path.parts_join (hstem.isPart hrole)]
  simp

/-- Two roles have different edge files. -/
theorem edgePath_injective (hstem : IsStem stem) {role other : Role}
    (hrole : role.isKnown = true) (hother : other.isKnown = true)
    (h : edgePath folder stem role = edgePath folder stem other) :
    role = other := by
  have hname : roleName stem role = roleName stem other := by
    rw [← name_edgePath hstem hrole, h, name_edgePath hstem hother]
  rw [← ofFileName_roleName stem hrole, hname, ofFileName_roleName stem hother]

private theorem isKnown_of_mem {role : Role} (h : role ∈ Role.known) :
    role.isKnown = true := by
  revert role
  decide

private theorem paths_roleFiles (roles : List Role) :
    (roleFiles folder stem rows roles).map (·.1) =
      (roles.filter (occurs rows)).map (edgePath folder stem) := by
  simp [roleFiles, Function.comp_def]

private theorem nodup_roleFiles (hstem : IsStem stem) :
    ((roleFiles folder stem rows Role.known).map (·.1)).Nodup := by
  rw [paths_roleFiles]
  refine List.Nodup.map_on (fun role hrole other hother h => ?_)
    (List.Nodup.filter _ (by decide))
  exact edgePath_injective hstem (isKnown_of_mem (List.mem_of_mem_filter hrole))
    (isKnown_of_mem (List.mem_of_mem_filter hother)) h

/-- Each edge file holds the lines of the rows of its role. -/
theorem readText_edgePath (hstem : IsStem stem) {role : Role}
    (hrole : role ∈ Role.known.filter (occurs rows)) :
    (writeEdges files folder stem rows).files.readText
      (edgePath folder stem role) = .ok (roleText rows role) := by
  rw [writeEdges_files]
  exact Files.readText_writeTexts (nodup_roleFiles hstem)
    (List.mem_map.mpr ⟨role, hrole, rfl⟩)
    (parts_edgePath_ne_nil hstem
      (isKnown_of_mem (List.mem_of_mem_filter hrole)))

private theorem isFolder_writeEdges (hstem : IsStem stem)
    (hfolder : files.exists? (Path.tidy folder) = true →
      files.isFolder (Path.tidy folder) = true) :
    (writeEdges files folder stem rows).files.isFolder
      (Path.tidy folder) = true := by
  rw [writeEdges_files, Files.isFolder_writeTexts,
    Files.isFolder_makeFolders files folder hfolder]
  rw [paths_roleFiles, List.mem_map]
  rintro ⟨role, hrole, hpath⟩
  exact edgePath_ne hstem (isKnown_of_mem (List.mem_of_mem_filter hrole)) hpath

/-! ## The order of the edge files -/

/-- The roles in the order of the names of their files. -/
def orderOfNames : List Role := [.predict, .train, .validate]

private theorem pairwise_edgePath (hstem : IsStem stem) :
    ((orderOfNames.filter (occurs rows)).map (edgePath folder stem)).Pairwise
      (· ≤ ·) := by
  have hlabels : orderOfNames.Pairwise fun a b => a.label ≤ b.label := by decide
  have hknown : ∀ role ∈ orderOfNames, role.isKnown = true := by decide
  rw [List.pairwise_map]
  refine (hlabels.sublist List.filter_sublist).imp_of_mem ?_
  intro role other hrole hother hle
  exact Path.join_le_join
    (hstem.isPart (hknown role (List.mem_of_mem_filter hrole)))
    (hstem.isPart (hknown other (List.mem_of_mem_filter hother))) hle

/-- Is the path hidden? -/
def isHidden (path : String) : Bool :=
  (Path.name path).startsWith "."

/-- The files that are not hidden after writing into a folder without other
ones. -/
theorem visible_perm (hstem : IsStem stem)
    (hothers : ∀ p ∈ files.filesIn (Path.tidy folder), isHidden p = true ∨
      p ∈ (writeEdges files folder stem rows).paths.map (·.2)) :
    (((writeEdges files folder stem rows).files.filesIn
        (Path.tidy folder)).filter fun p => !isHidden p).Perm
      ((Role.known.filter (occurs rows)).map (edgePath folder stem)) := by
  have hwritten : (writeEdges files folder stem rows).paths.map (·.2) =
      (roleFiles folder stem rows Role.known).map (·.1) := by
    simp [writeEdges_paths, roleFiles, Function.comp_def]
  have hbelow : ∀ p ∈ (roleFiles folder stem rows Role.known).map (·.1),
      Path.parent p = Path.tidy folder ∧ p ≠ Path.tidy folder := by
    intro p hp
    rw [paths_roleFiles] at hp
    obtain ⟨role, hrole, rfl⟩ := List.mem_map.mp hp
    have hknown := isKnown_of_mem (List.mem_of_mem_filter hrole)
    exact ⟨parent_edgePath hstem hknown, edgePath_ne hstem hknown⟩
  have hvisible : ∀ p ∈ (roleFiles folder stem rows Role.known).map (·.1),
      (!isHidden p) = true := by
    intro p hp
    rw [paths_roleFiles] at hp
    obtain ⟨role, hrole, rfl⟩ := List.mem_map.mp hp
    rw [isHidden,
      name_edgePath hstem (isKnown_of_mem (List.mem_of_mem_filter hrole)),
      hstem.name_not_hidden, Bool.not_false]
  have hold : ((files.filesIn (Path.tidy folder)).filter
      (fun p => p ∉ (roleFiles folder stem rows Role.known).map (·.1))).filter
        (fun p => !isHidden p) = [] := by
    rw [List.filter_eq_nil_iff]
    intro p hp
    obtain ⟨hp, hnew⟩ := List.mem_filter.mp hp
    rcases hothers p hp with hhidden | hmem
    · simp [hhidden]
    · rw [hwritten] at hmem
      simp [hmem] at hnew
  have hperm :=
    (@Files.filesIn_writeTexts κ (files.makeFolders (Path.tidy folder)) _ _
      (nodup_roleFiles hstem) hbelow).filter fun p => !isHidden p
  rw [Files.filesIn_makeFolders, List.filter_append, hold, List.nil_append,
    List.filter_eq_self.mpr hvisible, ← writeEdges_files,
    paths_roleFiles] at hperm
  exact hperm

/-- After writing into a folder without other files, its edge files are those
written, in the order of their names. -/
theorem edgePaths_writeEdges (hstem : IsStem stem)
    (hfolder : files.exists? (Path.tidy folder) = true →
      files.isFolder (Path.tidy folder) = true)
    (hothers : ∀ p ∈ files.filesIn (Path.tidy folder), isHidden p = true ∨
      p ∈ (writeEdges files folder stem rows).paths.map (·.2))
    (hsome : orderOfNames.filter (occurs rows) ≠ []) :
    edgePaths (writeEdges files folder stem rows).files (Path.tidy folder) =
      .ok ((orderOfNames.filter (occurs rows)).map (edgePath folder stem)) := by
  have hperm := visible_perm hstem hothers
  have hsorted : ((writeEdges files folder stem rows).files.filesIn
      (Path.tidy folder)).filter (fun p => !isHidden p) =
      (orderOfNames.filter (occurs rows)).map (edgePath folder stem) := by
    refine List.Perm.eq_of_pairwise (fun a b _ _ => String.le_antisymm)
      ((Files.pairwise_filesIn ..).filter _) (pairwise_edgePath hstem)
      (hperm.trans ?_)
    exact ((show Role.known.Perm orderOfNames by decide).filter _).map _
  have hmade : (writeEdges files folder stem rows).files.isFolder
        (Path.tidy folder) = true :=
    isFolder_writeEdges hstem hfolder
  simp only [isHidden] at hsorted
  rw [edgePaths, Files.exists?_of_isFolder hmade, hmade]
  simp [hsorted, hsome]

end Writing

/-! ## Identifiers -/

private theorem toNatClampNeg_lt (x : Int64) : x.toNatClampNeg < signBit := by
  have hlt : x.toInt < 2 ^ 63 := Int64.toInt_lt x
  have hbit : signBit = 2 ^ 63 := rfl
  rw [Int64.toNatClampNeg, hbit]
  omega

/-- Identifiers without the sign bit are kept. -/
private theorem wrapped_toNatClampNeg {x : Int64} (h : 0 ≤ x.toInt) :
    wrapped x.toNatClampNeg = x := by
  rw [wrapped, Int64.toNatClampNeg, ← Int64.ofInt_eq_ofNat,
    Int.toNat_of_nonneg h, Int64.ofInt_toInt]

/-- Where no number needs the sign bit, all are stored alike. -/
theorem identifiers_of_small {columns : List (List Nat)}
    (h : ∀ column ∈ columns, ∀ n ∈ column, n < signBit) :
    identifiers columns = .ok (columns.flatten.map wrapped) := by
  have hlarge : columns.any (·.any (idRange ≤ ·)) = false := by
    rw [List.any_eq_false]
    intro column hcolumn
    rw [List.any_eq_true]
    rintro ⟨n, hn, hlarge⟩
    have hsmall := h column hcolumn n hn
    have hrange : signBit ≤ idRange := by decide
    exact absurd (of_decide_eq_true hlarge) (by omega)
  have hmixed : isMixed columns = false := by
    have hnone : (columns.filter (!·.isEmpty)).any needsSignBit = false := by
      rw [List.any_eq_false]
      intro column hcolumn
      rw [needsSignBit, List.any_eq_true]
      rintro ⟨n, hn, hbit⟩
      have hsmall := h column (List.mem_of_mem_filter hcolumn) n hn
      exact absurd (of_decide_eq_true hbit) (by omega)
    rw [isMixed, hnone, Bool.false_and]
  rw [identifiers, hlarge, hmixed]
  rfl

/-! ## Tables from files -/

section Tables

variable {κ : Type} {files : Files κ} {path : String} {paths : List String}
  {found : String → EdgeFile} {moved strict : Bool}

/-- The role that the file at a path is for. -/
def roleOf (path : String) : Role :=
  Role.ofFileName (Path.name path)

/-- The row of an edge in a file for some role. -/
def rowOf (role : Role) (e : EdgeLine) : Rating Float where
  source := wrapped e.source
  target := wrapped e.target
  value := e.value
  role := role

/-- The rows of the files at some paths, file by file. -/
def rowsFound (found : String → EdgeFile) (paths : List String) :
    List (Rating Float) :=
  paths.flatMap fun p => (found p).edges.map (rowOf (roleOf p))

/-- The table made of what was found in files. -/
def assemble (moved : Bool) (found : List (Role × EdgeFile)) (skipped : Nat) :
    Telling Loaded := do
  let sources ← Attempt.lift <|
    identifiers (found.map fun (_, file) => file.edges.map (·.source))
  let targets ← Attempt.lift <|
    identifiers (found.map fun (_, file) => file.edges.map (·.target))
  let rest :=
    found.flatMap fun (role, file) => file.edges.map fun e => (e.value, role)
  let rows := List.zipWith
    (fun (source, target) (value, role) =>
      { source, target, value, role : Rating Float })
    (sources.zip targets) rest
  return ⟨if moved then moveColumns rows else rows, skipped⟩

private theorem loadEdges_eq : loadEdges files moved strict path = (do
    let paths ← Attempt.lift (edgePaths files path)
    let found ← Attempt.collect paths (loadFile files strict)
    let skipped := found.foldr (fun (_, file) count => file.skipped + count) 0
    if 0 < skipped then tell [s!"Пропущено некорректных строк: {skipped}"]
    assemble moved found skipped) :=
  rfl

/-- Columns that were taken from rows make up these rows again. -/
theorem rows_of_columns (rows : List (Rating Float)) :
    List.zipWith (fun (source, target) (value, role) =>
        { source, target, value, role : Rating Float })
      ((rows.map (·.source)).zip (rows.map (·.target)))
      (rows.map fun r => (r.value, r.role)) = rows := by
  induction rows with
  | nil => rfl
  | cons r rows ih =>
      simp only [List.map_cons, List.zip_cons_cons, List.zipWith_cons_cons, ih]

/-- A column of the rows of files, from their edges. -/
theorem map_rowsFound {β : Type} (field : Rating Float → β) :
    (rowsFound found paths).map field = paths.flatMap fun p =>
      (found p).edges.map fun e => field (rowOf (roleOf p) e) := by
  simp [rowsFound, List.map_flatMap, Function.comp_def]

/-- One column of what was found, as identifiers. -/
theorem identifiers_of_found {field : EdgeLine → Nat}
    (h : ∀ p ∈ paths, ∀ e ∈ (found p).edges, field e < signBit) :
    identifiers ((paths.map fun p => (roleOf p, found p)).map
        fun (_, file) => file.edges.map field) =
      .ok (paths.flatMap fun p =>
        (found p).edges.map fun e => wrapped (field e)) := by
  rw [List.map_map, identifiers_of_small]
  · simp [List.flatMap, List.map_flatten, Function.comp_def]
  · intro column hcolumn n hn
    obtain ⟨p, hp, rfl⟩ := List.mem_map.mp hcolumn
    obtain ⟨e, he, rfl⟩ := List.mem_map.mp hn
    exact h p hp e he

/-- What was found makes up a table, if no identifier needs the sign bit. -/
theorem assemble_gives
    (hsmall : ∀ p ∈ paths, ∀ e ∈ (found p).edges,
      e.source < signBit ∧ e.target < signBit)
    (moved : Bool) (skipped : Nat) :
    (assemble moved (paths.map fun p => (roleOf p, found p)) skipped).Gives
      ⟨if moved then moveColumns (rowsFound found paths)
        else rowsFound found paths, skipped⟩ := by
  have hrows := rows_of_columns (rowsFound found paths)
  rw [map_rowsFound, map_rowsFound, map_rowsFound] at hrows
  refine (Attempt.gives_lift (identifiers_of_found fun p hp e he =>
    (hsmall p hp e he).1)).bind ((Attempt.gives_lift (identifiers_of_found
      fun p hp e he => (hsmall p hp e he).2)).bind ?_)
  dsimp only
  rw [List.flatMap_map]
  exact hrows ▸ Attempt.gives_pure _

/-- Once all files have been read, a table is loaded. -/
theorem loadEdges_of_collect (hpaths : edgePaths files path = .ok paths)
    (hsmall : ∀ p ∈ paths, ∀ e ∈ (found p).edges,
      e.source < signBit ∧ e.target < signBit)
    (hcollect : (Attempt.collect paths (loadFile files strict)).Gives
      (paths.map fun p => (roleOf p, found p))) (moved : Bool) :
    (loadEdges files moved strict path).Gives
      ⟨if moved then moveColumns (rowsFound found paths)
        else rowsFound found paths,
        (paths.map fun p => (found p).skipped).sum⟩ := by
  have hskipped : (paths.map fun p => (roleOf p, found p)).foldr
      (fun (_, file) count => file.skipped + count) 0 =
        (paths.map fun p => (found p).skipped).sum := by
    rw [List.foldr_map, List.sum, List.foldr_map]
  have hassemble := assemble_gives hsmall moved
    (paths.map fun p => (found p).skipped).sum
  rw [loadEdges_eq]
  refine (Attempt.gives_lift hpaths).bind (hcollect.bind ?_)
  dsimp only
  rw [hskipped]
  split
  · exact (Attempt.gives_tell _).bind hassemble
  · exact hassemble

end Tables

/-! ## Reading what was written -/

section Reading

variable {κ : Type} {files : Files κ} {rows : List (Rating Float)}

/-- What is read from the edge file at a path. -/
def readingOf (rows : List (Rating Float)) (path : String) : Role × EdgeFile :=
  (roleOf path, ⟨(ofRole (roleOf path) rows).map lineOf, 0⟩)

/-- The rows that edge files at some paths hold, file by file. -/
def rowsAt (rows : List (Rating Float)) (paths : List String) :
    List (Rating Float) :=
  paths.flatMap fun path => ofRole (roleOf path) rows

private theorem loadFile_gives {path : String} (hrows : ∀ r ∈ rows, Writable r)
    (htext : files.readText path = .ok (roleText rows (roleOf path)))
    (strict : Bool) :
    (loadFile files strict path).Gives (readingOf rows path) := by
  have hwritable : ∀ r ∈ ofRole (roleOf path) rows, Writable r :=
    fun r hr => hrows r (List.mem_of_mem_filter hr)
  have hlines : Text.lines (roleText rows (roleOf path)) =
      (ofRole (roleOf path) rows).map fun r => (edgeText r).toList := by
    rw [roleText, Text.lines_join, List.map_map]
    · rfl
    · intro t ht
      obtain ⟨r, hr, rfl⟩ := List.mem_map.mp ht
      exact (hwritable r hr).isLine
  have hread :
      readEdges strict path 1 (Text.lines (roleText rows (roleOf path))) =
        .ok ⟨(ofRole (roleOf path) rows).map lineOf, 0⟩ := by
    rw [hlines, readEdges_edgeText hwritable]
  exact (Attempt.gives_lift htext).bind ((Attempt.gives_lift hread).bind
    ((Attempt.gives_tell _).bind (Attempt.gives_pure _)))

/-- The line of a row is that row again, in a file for its role. -/
theorem Writable.rowOf_lineOf {r : Rating Float} (h : Writable r) :
    rowOf r.role (lineOf r) = r := by
  rw [rowOf, lineOf]
  dsimp only
  rw [wrapped_toNatClampNeg h.source, wrapped_toNatClampNeg h.target]

/-- What is read gives back the rows that were written. -/
theorem rowsFound_readingOf (hrows : ∀ r ∈ rows, Writable r)
    (paths : List String) :
    rowsFound (fun path => (readingOf rows path).2) paths =
      rowsAt rows paths := by
  rw [rowsFound, rowsAt]
  congr 1
  funext path
  rw [readingOf, List.map_map]
  refine (List.map_congr_left fun r hr => ?_).trans (List.map_id _)
  obtain ⟨hmem, hrole⟩ := List.mem_filter.mp hr
  rw [Function.comp_apply, ← beq_iff_eq.mp hrole]
  exact (hrows r hmem).rowOf_lineOf

/-- Reading edge files that hold the rows of their roles gives these rows, file
by file. -/
theorem loadEdges_gives {path : String} {paths : List String}
    (hrows : ∀ r ∈ rows, Writable r) (hpaths : edgePaths files path = .ok paths)
    (htext : ∀ p ∈ paths, files.readText p = .ok (roleText rows (roleOf p)))
    (moved strict : Bool) :
    (loadEdges files moved strict path).Gives
      ⟨if moved then moveColumns (rowsAt rows paths)
        else rowsAt rows paths, 0⟩ := by
  have hsmall : ∀ p ∈ paths, ∀ e ∈ (readingOf rows p).2.edges,
      e.source < signBit ∧ e.target < signBit := by
    intro p _ e he
    obtain ⟨r, -, rfl⟩ := List.mem_map.mp he
    exact ⟨toNatClampNeg_lt _, toNatClampNeg_lt _⟩
  have hloaded := loadEdges_of_collect hpaths hsmall (Attempt.gives_collect
    fun p hp => loadFile_gives hrows (htext p hp) strict) moved
  rw [rowsFound_readingOf hrows] at hloaded
  simpa [readingOf] using hloaded

end Reading

/-! ## There and back -/

section ThereAndBack

variable {κ : Type} {files : Files κ} {folder stem : String}
  {rows : List (Rating Float)}

/-- The rows of a table in the order of its edge files. -/
def byRole (rows : List (Rating Float)) : List (Rating Float) :=
  ofRole .predict rows ++ ofRole .train rows ++ ofRole .validate rows

private theorem rowsAt_edgePaths (hstem : IsStem stem)
    (rows : List (Rating Float)) :
    rowsAt rows ((orderOfNames.filter (occurs rows)).map
      (edgePath folder stem)) = byRole rows := by
  have hknown : ∀ role ∈ orderOfNames, role.isKnown = true := by decide
  have hroles : ∀ roles : List Role, (∀ role ∈ roles, role.isKnown = true) →
      rowsAt rows ((roles.filter (occurs rows)).map (edgePath folder stem)) =
        roles.flatMap fun role => ofRole role rows := by
    intro roles hroles
    induction roles with
    | nil => rfl
    | cons role roles ih =>
        have hrole : roleOf (edgePath folder stem role) = role := by
          rw [roleOf, name_edgePath hstem (hroles role (by simp)),
            ofFileName_roleName stem (hroles role (by simp))]
        have hrest := ih fun other hother => hroles other (by simp [hother])
        rw [List.flatMap_cons, ← hrest]
        cases hoccurs : occurs rows role with
        | true =>
            rw [List.filter_cons_of_pos hoccurs, List.map_cons, rowsAt,
              List.flatMap_cons, hrole]
            rfl
        | false =>
            have hnone : ofRole role rows = [] := by
              simpa [occurs] using hoccurs
            rw [List.filter_cons_of_neg (by simp [hoccurs]), hnone,
              List.nil_append]
  rw [hroles orderOfNames hknown, byRole]
  simp [orderOfNames]

/-- Some role occurs in a table with rows. -/
theorem exists_occurs (hne : rows ≠ [])
    (hrows : ∀ r ∈ rows, r.role.isKnown = true) :
    orderOfNames.filter (occurs rows) ≠ [] := by
  obtain ⟨r, rest, rfl⟩ := List.exists_cons_of_ne_nil hne
  have hmem : r.role ∈ orderOfNames := by
    have hknown := hrows r (by simp)
    revert hknown
    cases r.role <;> simp [orderOfNames, Role.isKnown]
  intro hnone
  have hnot := List.filter_eq_nil_iff.mp hnone r.role hmem
  simp [occurs, ofRole] at hnot

/-- A table that is written into a folder without other files and loaded from
there is the same table, its rows ordered by the names of their files; with
moved columns if asked to, and whether the reader is strict or not. -/
theorem loadEdges_writeEdges (hstem : IsStem stem) (hne : rows ≠ [])
    (hrows : ∀ r ∈ rows, Writable r)
    (hfolder : files.exists? (Path.tidy folder) = true →
      files.isFolder (Path.tidy folder) = true)
    (hothers : ∀ p ∈ files.filesIn (Path.tidy folder), isHidden p = true ∨
      p ∈ (writeEdges files folder stem rows).paths.map (·.2))
    (moved strict : Bool) :
    (loadEdges (writeEdges files folder stem rows).files moved strict
      (Path.tidy folder)).Gives
        ⟨if moved then moveColumns (byRole rows) else byRole rows, 0⟩ := by
  have hsome := exists_occurs hne fun r hr => (hrows r hr).role
  rw [← rowsAt_edgePaths hstem rows]
  refine loadEdges_gives hrows
    (edgePaths_writeEdges hstem hfolder hothers hsome) ?_ moved strict
  intro p hp
  obtain ⟨role, hrole, rfl⟩ := List.mem_map.mp hp
  obtain ⟨hmem, hoccurs⟩ := List.mem_filter.mp hrole
  have hknown : role ∈ Role.known :=
    (show orderOfNames ⊆ Role.known by decide) hmem
  rw [roleOf, name_edgePath hstem (isKnown_of_mem hknown),
    ofFileName_roleName stem (isKnown_of_mem hknown)]
  exact readText_edgePath hstem (List.mem_filter.mpr ⟨hknown, hoccurs⟩)

/-- The reader of edge files, by either name, with its two options. -/
theorem make_edgeFiles {name : String}
    (hname : name = "edgelist" ∨ name = "edge_list") (moved strict : Bool) :
    Source.make name [("remap_target", .flag moved), ("strict", .flag strict)] =
      .ok ⟨.edgeFiles,
        [("remap_target", .flag moved), ("strict", .flag strict)]⟩ := by
  rcases hname with rfl | rfl
  · rfl
  · rfl

/-- Writing a table as edge files and loading them loses nothing: what is loaded
are the rows to predict, those to learn from and those to validate with, each
group in its order, and no line is skipped. -/
theorem edgeFiles_roundtrip (files : Files κ) (hstem : IsStem stem)
    (hne : rows ≠ []) (hrows : ∀ r ∈ rows, Writable r)
    (hfolder : files.exists? (Path.tidy folder) = true →
      files.isFolder (Path.tidy folder) = true)
    (hothers : ∀ p ∈ files.filesIn (Path.tidy folder), isHidden p = true ∨
      p ∈ (writeEdges files folder stem rows).paths.map (·.2))
    (strict : Bool) :
    ∃ source, Source.make "edgelist"
        [("remap_target", .flag false), ("strict", .flag strict)] = .ok source ∧
      (source.load (writeEdges files folder stem rows).files folder).Gives
        ⟨ofRole .predict rows ++ ofRole .train rows ++
          ofRole .validate rows, 0⟩ :=
  ⟨_, make_edgeFiles (.inl rfl) false strict,
    loadEdges_writeEdges hstem hne hrows hfolder hothers false strict⟩

end ThereAndBack

/-! ## A table -/

/-- A table with a row of each role, and values of several shapes. -/
def sampleTable : List (Rating Float) := [
  ⟨1, 10, -0.0, .train⟩, ⟨2, 10, 1e-5, .validate⟩,
  ⟨1, 9223372036854775807, 1.5e16, .predict⟩, ⟨0, 11, 5e-324, .train⟩]

private theorem writable_sampleTable : ∀ r ∈ sampleTable, Writable r := by
  intro r hr
  simp only [sampleTable, List.mem_cons, List.not_mem_nil, or_false] at hr
  rcases hr with rfl | rfl | rfl | rfl <;>
    exact ⟨by decide, by decide, by decide +kernel, rfl⟩

theorem isStem_ratings : IsStem "ratings" where
  ne_empty := by decide
  no_slash := by decide
  not_hidden := by
    rw [Bool.eq_false_iff, Ne, String.startsWith_string_iff]
    decide

theorem edgeFiles_roundtrip_sample :
    ∃ source, Source.make "edgelist"
        [("remap_target", .flag false), ("strict", .flag true)] = .ok source ∧
      (source.load (writeEdges (Files.none : Files Unit) "data/edges" "ratings"
        sampleTable).files "data/edges").Gives
        ⟨ofRole .predict sampleTable ++ ofRole .train sampleTable ++
          ofRole .validate sampleTable, 0⟩ :=
  edgeFiles_roundtrip Files.none isStem_ratings (by decide) writable_sampleTable
    Files.isFolder_none (by simp [Files.filesIn_none]) true

end RatingFactors.Ratings
