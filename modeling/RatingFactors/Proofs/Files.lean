import Mathlib.Data.List.Basic
import RatingFactors.Files

/-!
# Paths and trees of files

A path is its parts and whether it begins at the root; `ofParts` and `parts`
go back and forth between the two, and everything else about paths follows from
that.

## Main results

* `Path.parts_ofParts` — a path of given parts has these parts.
* `Path.parent_join`, `Path.name_join` — a path below a folder lies in that
  folder under the name it was given.
* `Files.readText_writeTexts`, `Files.filesIn_writeTexts` — what a folder holds
  after several files have been written.
-/

namespace RatingFactors

namespace Path

/-! ## Parts -/

/-- What can stand between two slashes and means something there. -/
structure IsPart (part : String) : Prop where
  ne_empty : part ≠ ""
  ne_point : part ≠ "."
  no_slash : '/' ∉ part.toList

private theorem not_mem_of_mem_splitOn {x : Char} {piece cs : List Char}
    (h : piece ∈ cs.splitOn x) : x ∉ piece := by
  induction cs generalizing piece with
  | nil =>
      rw [List.splitOn_nil, List.mem_singleton] at h
      simp [h]
  | cons c cs ih =>
      rw [List.splitOn_cons_eq_if_modifyHead] at h
      split at h
      · rcases List.mem_cons.mp h with rfl | h
        · simp
        · exact ih h
      · next hc =>
        obtain ⟨first, others, hsplit⟩ :=
          List.exists_cons_of_ne_nil (List.splitOn_ne_nil x cs)
        rw [hsplit] at h ih
        rw [List.modifyHead_cons] at h
        rcases List.mem_cons.mp h with rfl | h
        · have hx : x ≠ c := fun heq => hc (by simp [heq])
          simp [hx, ih (List.mem_cons_self ..)]
        · exact ih (List.mem_cons_of_mem _ h)

private theorem exists_mem_splitOn {x c : Char} {cs : List Char} (hmem : c ∈ cs)
    (hne : c ≠ x) : ∃ piece ∈ cs.splitOn x, c ∈ piece := by
  induction cs with
  | nil => cases hmem
  | cons d cs ih =>
      rw [List.splitOn_cons_eq_if_modifyHead]
      split
      · next hd =>
        rcases List.mem_cons.mp hmem with rfl | hmem
        · exact absurd (beq_iff_eq.mp hd) hne
        · obtain ⟨piece, hpiece, hc⟩ := ih hmem
          exact ⟨piece, List.mem_cons_of_mem _ hpiece, hc⟩
      · obtain ⟨first, others, hsplit⟩ :=
          List.exists_cons_of_ne_nil (List.splitOn_ne_nil x cs)
        rw [hsplit] at ih ⊢
        rw [List.modifyHead_cons]
        rcases List.mem_cons.mp hmem with rfl | hmem
        · exact ⟨_, List.mem_cons_self .., List.mem_cons_self ..⟩
        · obtain ⟨piece, hpiece, hc⟩ := ih hmem
          rcases List.mem_cons.mp hpiece with rfl | hpiece
          · exact ⟨_, List.mem_cons_self .., List.mem_cons_of_mem _ hc⟩
          · exact ⟨piece, List.mem_cons_of_mem _ hpiece, hc⟩

/-- A path has a part where more than slashes and points is written. -/
theorem parts_ne_nil {path : String} {c : Char} (hmem : c ∈ path.toList)
    (hslash : c ≠ '/') (hpoint : c ≠ '.') : parts path ≠ [] := by
  obtain ⟨piece, hpiece, hc⟩ := exists_mem_splitOn hmem hslash
  have hne : ∀ text : String, c ∉ text.toList → String.ofList piece ≠ text := by
    rintro text hnot rfl
    exact hnot (by rwa [String.toList_ofList])
  refine List.ne_nil_of_mem
    (List.mem_filter.mpr ⟨List.mem_map_of_mem hpiece, ?_⟩)
  simp only [Bool.and_eq_true, bne_iff_ne]
  exact ⟨hne "" (by simp), hne "." (by simpa using hpoint)⟩

private theorem isPart_of_mem_parts {path part : String}
    (h : part ∈ parts path) : IsPart part := by
  obtain ⟨hmem, hkept⟩ := List.mem_filter.mp h
  obtain ⟨piece, hpiece, rfl⟩ := List.mem_map.mp hmem
  simp only [Bool.and_eq_true, bne_iff_ne] at hkept
  refine ⟨hkept.1, hkept.2, ?_⟩
  rw [String.toList_ofList]
  exact not_mem_of_mem_splitOn hpiece

/-- A slash separates the parts before it from those behind it. -/
theorem parts_slash (front back : String) :
    parts (front ++ "/" ++ back) = parts front ++ parts back := by
  have hsplit : (front ++ "/" ++ back).toList.splitOn '/' =
      front.toList.splitOn '/' ++ back.toList.splitOn '/' := by
    rw [String.toList_append, String.toList_append, List.append_assoc]
    exact List.splitOn_append_cons_self _ _
  rw [parts, hsplit, List.map_append, List.filter_append, parts, parts]

private theorem parts_of_isPart {part : String} (h : IsPart part) :
    parts part = [part] := by
  rw [parts, List.splitOn_eq_singleton h.no_slash, List.map_singleton,
    String.ofList_toList]
  simp [h.ne_empty, h.ne_point]

/-- A path of given parts has these parts. -/
theorem parts_ofParts (absolute : Bool) {ps : List String}
    (h : ∀ p ∈ ps, IsPart p) : parts (ofParts absolute ps) = ps := by
  have hjoined : parts ("/".intercalate ps) = ps := by
    induction ps with
    | nil => decide
    | cons p ps ih =>
        have hp : IsPart p := h p (by simp)
        have hps : ∀ q ∈ ps, IsPart q := fun q hq => h q (by simp [hq])
        cases ps with
        | nil => rw [String.intercalate_singleton, parts_of_isPart hp]
        | cons q ps =>
            rw [String.intercalate_cons_cons, parts_slash, parts_of_isPart hp,
              ih hps]
            rfl
  cases absolute with
  | true =>
      have hroot : parts "/" = [] := by decide
      have := parts_slash "" ("/".intercalate ps)
      rw [hjoined] at this
      exact this
  | false =>
      cases ps with
      | nil => decide
      | cons p ps => exact hjoined

/-- What is added to the last part is added to the path. -/
theorem ofParts_append (absolute : Bool) (ps : List String)
    (front back : String) :
    ofParts absolute (ps ++ [front ++ back]) =
      ofParts absolute (ps ++ [front]) ++ back := by
  have hjoined : "/".intercalate (ps ++ [front ++ back]) =
      "/".intercalate (ps ++ [front]) ++ back := by
    cases ps with
    | nil => simp
    | cons p ps =>
        rw [String.intercalate_append_of_ne_nil (by simp) (by simp),
          String.intercalate_append_of_ne_nil (by simp) (by simp)]
        simp [String.append_assoc]
  cases absolute <;> simp [ofParts, hjoined, String.append_assoc]

/-! ## Where a path begins -/

theorem startsWith_slash_iff (path : String) :
    path.startsWith "/" = true ↔ path.toList.head? = some '/' := by
  rw [String.startsWith_string_iff]
  cases path.toList with
  | nil => simp
  | cons c cs => simp [eq_comm]

/-- Parts that are joined begin with the first one. -/
theorem exists_intercalate (p : String) (ps : List String) :
    ∃ rest, "/".intercalate (p :: ps) = p ++ rest := by
  cases ps with
  | nil => exact ⟨"", by simp⟩
  | cons q ps =>
      exact ⟨_, by rw [String.intercalate_cons_cons, String.append_assoc]⟩

private theorem startsWith_ofParts (absolute : Bool) {ps : List String}
    (h : ∀ p ∈ ps, IsPart p) :
    (ofParts absolute ps).startsWith "/" = absolute := by
  rw [Bool.eq_iff_iff, startsWith_slash_iff]
  cases absolute with
  | true => simp [ofParts]
  | false =>
      cases ps with
      | nil => decide
      | cons p ps =>
          have hp : IsPart p := h p (by simp)
          obtain ⟨c, cs, hcs⟩ := List.exists_cons_of_ne_nil
            (mt String.toList_eq_nil_iff.mp hp.ne_empty)
          have hc : c ≠ '/' := by
            rintro rfl
            exact hp.no_slash (by simp [hcs])
          obtain ⟨rest, hrest⟩ := exists_intercalate p ps
          simp [ofParts, hrest, hcs, hc]

/-! ## The usual spelling -/

theorem parts_tidy (path : String) : parts (tidy path) = parts path :=
  parts_ofParts _ fun _ => isPart_of_mem_parts

private theorem startsWith_tidy (path : String) :
    (tidy path).startsWith "/" = path.startsWith "/" :=
  startsWith_ofParts _ fun _ => isPart_of_mem_parts

theorem tidy_tidy (path : String) : tidy (tidy path) = tidy path := by
  rw [tidy, parts_tidy, startsWith_tidy, tidy]

private theorem tidy_ne_empty (path : String) : tidy path ≠ "" := by
  intro htidy
  have hparts : parts path = [] := by
    rw [← parts_tidy, htidy]
    decide
  rw [tidy, hparts] at htidy
  cases hroot : path.startsWith "/" <;> simp [hroot, ofParts] at htidy

/-! ## Paths below a folder -/

section Join

variable {folder name : String}

private theorem isPart_of_join (hname : IsPart name) :
    ∀ p ∈ parts folder ++ [name], IsPart p := by
  intro p hp
  rcases List.mem_append.mp hp with hp | hp
  · exact isPart_of_mem_parts hp
  · rw [List.mem_singleton.mp hp]
    exact hname

private theorem join_eq (hname : IsPart name) :
    join folder name =
      ofParts (folder.startsWith "/") (parts folder ++ [name]) := by
  have hrelative : name.startsWith "/" = false := by
    rw [Bool.eq_false_iff, Ne, startsWith_slash_iff]
    intro hhead
    exact hname.no_slash (List.mem_of_mem_head? hhead)
  have hroot : (tidy folder ++ "/" ++ name).startsWith "/" =
      folder.startsWith "/" := by
    rw [← startsWith_tidy folder, Bool.eq_iff_iff, startsWith_slash_iff,
      startsWith_slash_iff]
    cases htidy : (tidy folder).toList with
    | nil =>
        exact absurd (String.toList_eq_nil_iff.mp htidy) (tidy_ne_empty folder)
    | cons c cs => simp [htidy]
  rw [join, hrelative, if_neg Bool.false_ne_true, tidy, parts_slash, parts_tidy,
    parts_of_isPart hname, hroot]

/-- Paths below a folder are ordered as their names are behind what these have
in common. -/
theorem join_le_join {front back back' : String}
    (hname : IsPart (front ++ back)) (hname' : IsPart (front ++ back'))
    (h : back ≤ back') :
    join folder (front ++ back) ≤ join folder (front ++ back') := by
  rw [join_eq hname, join_eq hname', ofParts_append, ofParts_append]
  -- lists have two orders, and that of strings is this one
  change @LE.le (List Char) List.instLE (String.toList _) (String.toList _)
  rw [String.toList_append, String.toList_append]
  exact List.append_left_le h

theorem parts_join (hname : IsPart name) :
    parts (join folder name) = parts folder ++ [name] := by
  rw [join_eq hname, parts_ofParts _ (isPart_of_join hname)]

/-- A path below a folder lies in that folder. -/
theorem parent_join (hname : IsPart name) :
    parent (join folder name) = tidy folder := by
  rw [parent, parts_join hname, List.dropLast_concat, join_eq hname,
    startsWith_ofParts _ (isPart_of_join hname), tidy]

/-- A path below a folder has the name that it was given. -/
theorem name_join (hname : IsPart name) :
    Path.name (join folder name) = name := by
  rw [Path.name, parts_join hname, List.getLast?_concat, Option.getD_some]

theorem join_ne_of_parts {path : String} (hname : IsPart name)
    (h : (parts path).length ≤ (parts folder).length) :
    join folder name ≠ path := by
  intro heq
  have hlength : (parts (join folder name)).length = (parts path).length := by
    rw [heq]
  rw [parts_join hname, List.length_append, List.length_singleton] at hlength
  omega

end Join

end Path

namespace Files

variable {κ : Type} {files : Files κ} {path other folder : String}
  {entry : Entry κ}

/-! ## What stands at a path -/

theorem not_root_of_parts (hpath : Path.parts path ≠ []) :
    ¬ (path == "/" || path == ".") = true := by
  simp only [Bool.or_eq_true, beq_iff_eq]
  rintro (rfl | rfl)
  · exact hpath (by decide)
  · exact hpath (by decide)

theorem entry?_put (hroot : ¬ (path == "/" || path == ".") = true) :
    entry? (files.put path entry) path = some entry := by
  have hbefore : (files.entries.filter (·.1 != path)).find? (·.1 == path) =
      Option.none := by
    rw [List.find?_eq_none]
    intro e he
    simpa using (List.mem_filter.mp he).2
  rw [ entry?, if_neg hroot, put, List.find?_append, hbefore]
  simp

theorem entry?_put_ne (h : other ≠ path) :
    entry? (files.put path entry) other = files.entry? other := by
  have hfind : (files.entries.filter (·.1 != path)).find? (·.1 == other) =
      files.entries.find? (·.1 == other) := by
    rw [List.find?_filter]
    congr 1
    funext e
    by_cases he : e.1 = other
    · simp [he, h]
    · simp [he]
  rw [ entry?, entry?, put]
  simp [hfind, h.symm]

/-- What has been written is read back. -/
theorem readText_writeText (hpath : Path.parts path ≠ []) (text : String) :
    (files.writeText path text).readText path = .ok text := by
  have hdecoded : String.fromUTF8? text.toUTF8 = some text :=
    dif_pos text.isValidUTF8
  rw [readText, writeText, entry?_put (not_root_of_parts hpath)]
  simp only [hdecoded]

theorem readText_put_ne (h : other ≠ path) :
    (files.put path entry).readText other = files.readText other := by
  rw [readText, entry?_put_ne h, readText]

/-! ## The files of a folder -/

/-- Does this entry stand for a file in the folder? -/
def isFileIn (folder : String) : String × Entry κ → Bool := fun (path, entry) =>
  Path.parent path == folder && path != folder &&
    match entry with
    | .folder => false
    | _ => true

theorem filesIn_perm (files : Files κ) (folder : String) :
    (files.filesIn folder).Perm
      ((files.entries.filter (isFileIn folder)).map (·.1)) :=
  List.mergeSort_perm ..

theorem pairwise_filesIn (files : Files κ) (folder : String) :
    (files.filesIn folder).Pairwise (· ≤ ·) := by
  have hsorted := @List.pairwise_mergeSort String (fun a b => decide (a ≤ b))
    (fun a b c hab hbc => by
      simp only [decide_eq_true_eq] at *
      exact String.le_trans hab hbc)
    (fun a b => by
      simp only [Bool.or_eq_true, decide_eq_true_eq]
      exact String.le_total a b)
    ((files.entries.filter (isFileIn folder)).map (·.1))
  exact hsorted.imp fun h => of_decide_eq_true h

/-- Writing a file adds it to its folder, once. -/
theorem filesIn_put (hparent : Path.parent path = folder) (hne : path ≠ folder)
    (hentry : entry ≠ .folder) :
    ((files.put path entry).filesIn folder).Perm
      ((files.filesIn folder).filter (· != path) ++ [path]) := by
  have hnew : isFileIn folder (path, entry) = true := by
    cases entry <;> simp_all [isFileIn]
  have hold :
      ((files.entries.filter (·.1 != path)).filter
          (isFileIn folder)).map (·.1) =
        ((files.entries.filter (isFileIn folder)).map (·.1)).filter
          (· != path) := by
    rw [List.filter_comm, List.filter_map]
    rfl
  refine (filesIn_perm _ _).trans ?_
  rw [put, List.filter_append, List.map_append, hold]
  refine List.Perm.append ((filesIn_perm files folder).filter _).symm ?_
  rw [List.filter_singleton, hnew]
  rfl

/-- Making a folder where nothing stands adds no file. -/
theorem filesIn_put_folder (hfree : files.exists? path = false)
    (folder : String) :
    (files.put path .folder).filesIn folder = files.filesIn folder := by
  have hsame : files.entries.filter (·.1 != path) = files.entries := by
    rw [List.filter_eq_self]
    intro e he
    rw [exists?, entry?] at hfree
    split at hfree
    · simp at hfree
    · rw [Option.isSome_map, Bool.eq_false_iff] at hfree
      rw [bne_iff_ne]
      intro heq
      exact hfree (List.find?_isSome.mpr ⟨e, he, beq_iff_eq.mpr heq⟩)
  rw [filesIn, filesIn, put, hsame, List.filter_append]
  simp

/-! ## Making folders -/

theorem isFolder_iff :
    files.isFolder path = true ↔ files.entry? path = some .folder := by
  rw [isFolder]
  split
  · next h => simp [h]
  · next h => simpa using h

theorem exists?_of_isFolder (h : files.isFolder path = true) :
    files.exists? path = true := by
  rw [exists?, isFolder_iff.mp h]
  rfl

theorem isFolder_put_ne (h : other ≠ path) :
    (files.put path entry).isFolder other = files.isFolder other := by
  rw [isFolder, entry?_put_ne h, isFolder]

theorem isFolder_put_folder :
    (files.put path .folder).isFolder path = true := by
  rw [isFolder_iff]
  by_cases hroot : path == "/" || path == "."
  · rw [ entry?, if_pos hroot]
  · exact entry?_put hroot

/-- Makes a folder where nothing stands. -/
def makeFolder (files : Files κ) (path : String) : Files κ :=
  if files.exists? path then files else files.put path .folder

private theorem makeFolders_eq (files : Files κ) (path : String) :
    files.makeFolders path = (ancestors path).foldl makeFolder files := rfl

theorem filesIn_makeFolders (files : Files κ) (path folder : String) :
    (files.makeFolders path).filesIn folder = files.filesIn folder := by
  rw [makeFolders_eq]
  induction ancestors path generalizing files with
  | nil => rfl
  | cons p ps ih =>
      rw [List.foldl_cons, ih, makeFolder]
      split
      · rfl
      · next hfree =>
        exact filesIn_put_folder (Bool.eq_false_iff.mpr hfree) folder

private theorem isFolder_makeFolder (p : String)
    (h : files.isFolder path = true) :
    (files.makeFolder p).isFolder path = true := by
  rw [makeFolder]
  split
  · exact h
  · next hfree =>
    have hne : path ≠ p := by
      rintro rfl
      exact hfree (exists?_of_isFolder h)
    rw [isFolder_put_ne hne, h]

private theorem isFolder_foldl_makeFolder (ps : List String)
    (h : files.isFolder path = true) :
    (ps.foldl makeFolder files).isFolder path = true := by
  induction ps generalizing files with
  | nil => exact h
  | cons p ps ih => exact ih (isFolder_makeFolder p h)

private theorem isFolder_foldl_of_mem {ps : List String} (hmem : path ∈ ps)
    (hfree : files.exists? path = false) :
    (ps.foldl makeFolder files).isFolder path = true := by
  induction ps generalizing files with
  | nil => cases hmem
  | cons p ps ih =>
      rw [List.foldl_cons]
      by_cases hp : p = path
      · subst hp
        rw [makeFolder, hfree, if_neg Bool.false_ne_true]
        exact isFolder_foldl_makeFolder ps isFolder_put_folder
      · have hps : path ∈ ps :=
          (List.mem_cons.mp hmem).resolve_left (Ne.symm hp)
        apply ih hps
        rw [makeFolder]
        split
        · exact hfree
        · rw [exists?, entry?_put_ne (Ne.symm hp)]
          exact hfree

/-- In the tree with nothing in it only the folders where paths begin exist. -/
theorem isFolder_none (h : exists? (none : Files κ) path = true) :
    (none : Files κ).isFolder path = true := by
  rw [isFolder_iff]
  rw [exists?, entry?] at h
  split at h
  · next hroot => rw [ entry?, if_pos hroot]
  · cases h

theorem filesIn_none (folder : String) :
    (none : Files κ).filesIn folder = [] := by
  simp [filesIn, none]

/-- A folder is among the beginnings of its own path. -/
theorem mem_ancestors (hparts : Path.parts path ≠ []) :
    Path.tidy path ∈ ancestors path := by
  have hlength : 0 < (Path.parts path).length := List.length_pos_iff.mpr hparts
  refine List.mem_map.mpr ⟨(Path.parts path).length - 1, ?_, ?_⟩
  · rw [List.mem_range]
    omega
  · rw [Nat.sub_add_cancel hlength, List.take_length, Path.tidy]

/-- After making it there is a folder at its path, unless something else stood
there. -/
theorem isFolder_makeFolders (files : Files κ) (path : String)
    (h : files.exists? (Path.tidy path) = true →
      files.isFolder (Path.tidy path) = true) :
    (files.makeFolders (Path.tidy path)).isFolder (Path.tidy path) = true := by
  rw [makeFolders_eq]
  cases hexists : files.exists? (Path.tidy path) with
  | true => exact isFolder_foldl_makeFolder _ (h hexists)
  | false =>
      refine isFolder_foldl_of_mem ?_ hexists
      have hmem := @mem_ancestors (Path.tidy path) ?_
      · rwa [Path.tidy_tidy] at hmem
      · intro hparts
        rw [Path.parts_tidy] at hparts
        rw [Path.tidy, hparts] at hexists
        cases hroot : path.startsWith "/" <;>
          simp [hroot, Path.ofParts, exists?, entry?] at hexists

/-! ## Writing many files -/

/-- Writes texts at paths, one after another. -/
def writeTexts (files : Files κ) (items : List (String × String)) : Files κ :=
  items.foldl (fun files (path, text) => files.writeText path text) files

section WriteTexts

variable {items : List (String × String)}

theorem isFolder_writeTexts (h : path ∉ items.map (·.1)) :
    (files.writeTexts items).isFolder path = files.isFolder path := by
  induction items generalizing files with
  | nil => rfl
  | cons item items ih =>
      rw [List.map_cons, List.mem_cons, not_or] at h
      exact (ih h.2).trans (isFolder_put_ne h.1)

theorem readText_writeTexts_ne (h : path ∉ items.map (·.1)) :
    (files.writeTexts items).readText path = files.readText path := by
  induction items generalizing files with
  | nil => rfl
  | cons item items ih =>
      rw [List.map_cons, List.mem_cons, not_or] at h
      exact (ih h.2).trans (readText_put_ne h.1)

/-- Each text is read back from its path, if no path is written twice. -/
theorem readText_writeTexts {text : String} (hnodup : (items.map (·.1)).Nodup)
    (hmem : (path, text) ∈ items) (hpath : Path.parts path ≠ []) :
    (files.writeTexts items).readText path = .ok text := by
  induction items generalizing files with
  | nil => cases hmem
  | cons item items ih =>
      obtain ⟨hnew, hnodup⟩ := List.nodup_cons.mp hnodup
      rcases List.mem_cons.mp hmem with rfl | hmem
      · exact (readText_writeTexts_ne hnew).trans
          (readText_writeText hpath text)
      · exact ih hnodup hmem

/-- The files of a folder after writing into it: those that were there before
and have not been replaced, and those written. -/
theorem filesIn_writeTexts (hnodup : (items.map (·.1)).Nodup)
    (hparent : ∀ p ∈ items.map (·.1), Path.parent p = folder ∧ p ≠ folder) :
    ((files.writeTexts items).filesIn folder).Perm
      ((files.filesIn folder).filter (fun p => p ∉ items.map (·.1)) ++
        items.map (·.1)) := by
  induction items generalizing files with
  | nil => simp [writeTexts]
  | cons item items ih =>
      obtain ⟨path, text⟩ := item
      obtain ⟨hnew, hnodup⟩ := List.nodup_cons.mp hnodup
      have hpath : Path.parent path = folder ∧ path ≠ folder :=
        hparent path (by simp)
      have hwrite : ((files.writeText path text).filesIn folder).Perm
          ((files.filesIn folder).filter (· != path) ++ [path]) :=
        filesIn_put hpath.1 hpath.2 (by simp)
      refine (ih hnodup fun p hp => hparent p (by simp [hp])).trans ?_
      refine ((hwrite.filter _).append_right _).trans ?_
      have hkept : [path].filter (fun p => p ∉ items.map (·.1)) = [path] := by
        simpa using hnew
      rw [List.filter_append, hkept, List.filter_filter, List.append_assoc,
        List.singleton_append, List.map_cons]
      refine List.Perm.append_right _
        (List.Perm.of_eq (List.filter_congr fun p _ => ?_))
      rw [Bool.eq_iff_iff]
      simp [and_comm]

end WriteTexts

end Files

end RatingFactors
