import Mathlib.Data.List.NodupEquivFin
import RatingFactors.Proofs.Attempt
import RatingFactors.Proofs.Ratings.Repeats

/-!
# Which rows are kept

A rule for repeated rows says which rows count against a row: the earlier ones,
the later ones, or all others.  A row is kept if none of these has its key, and
the rows that are kept stay in the order of the table.  Everything else about
kept rows is read off these places: one row for each key, if the first or the
last is kept, a second removal that changes nothing, and rows that may be
renumbered before or after, as long as different keys stay different.

## Main definitions

* `rowsWhere` — the rows at some of the places of a table.
* `KeepRule.Outranks`, `Survives` — the places whose rows are kept.
* `OnePerKey` — a table with one row for each key of another.

## Main results

* `kept_eq_rowsWhere` — the rows that are kept, by their places.
* `kept_map` — what is kept depends on the keys alone.
* `kept_exactly` — what removing repeated rows leaves and prints.
-/

namespace RatingFactors.Ratings

variable {α : Type}

/-! ## Rows by their places -/

/-- The rows at the places that are picked, in the order of the table. -/
def rowsWhere (picked : Nat → Prop) [DecidablePred picked]
    (rows : List (Rating α)) : List (Rating α) :=
  (List.range rows.length).filterMap fun i =>
    if picked i then rows[i]? else none

section Places

variable {picked other : Nat → Prop} [DecidablePred picked]
  [DecidablePred other] {rows : List (Rating α)}

theorem rowsWhere_cons (r : Rating α) (rest : List (Rating α)) :
    rowsWhere picked (r :: rest) = (if picked 0 then [r] else []) ++
      rowsWhere (fun i => picked (i + 1)) rest := by
  rw [rowsWhere, List.length_cons, List.range_succ_eq_map, List.filterMap_cons,
    List.filterMap_map]
  by_cases hfirst : picked 0
  · rw [if_pos hfirst, if_pos hfirst]
    rfl
  · rw [if_neg hfirst, if_neg hfirst]
    rfl

/-- Only the places of the table matter. -/
theorem rowsWhere_congr (h : ∀ i < rows.length, picked i ↔ other i) :
    rowsWhere picked rows = rowsWhere other rows := by
  refine List.filterMap_congr fun i hi => ?_
  simp only [h i (List.mem_range.mp hi)]

theorem rowsWhere_map (change : Rating α → Rating α) (rows : List (Rating α)) :
    rowsWhere picked (rows.map change) =
      (rowsWhere picked rows).map change := by
  induction rows generalizing picked with
  | nil => rfl
  | cons r rest ih =>
      rw [List.map_cons, rowsWhere_cons, rowsWhere_cons, List.map_append, ih]
      split <;> rfl

private theorem rowsWhere_append_singleton (rows : List (Rating α))
    (r : Rating α) :
    rowsWhere picked (rows ++ [r]) =
      rowsWhere picked rows ++ if picked rows.length then [r] else [] := by
  induction rows generalizing picked with
  | nil =>
      rw [List.nil_append, rowsWhere_cons]
      simp [rowsWhere]
  | cons q rest ih =>
      rw [List.cons_append, rowsWhere_cons, rowsWhere_cons, ih,
        List.append_assoc, List.length_cons]

/-- A table read backwards has its places counted from the end. -/
theorem rowsWhere_reverse (rows : List (Rating α)) :
    rowsWhere picked rows.reverse =
      (rowsWhere (fun i => picked (rows.length - 1 - i)) rows).reverse := by
  induction rows generalizing picked with
  | nil => rfl
  | cons r rest ih =>
      rw [List.reverse_cons, rowsWhere_append_singleton, ih, rowsWhere_cons,
        List.reverse_append, List.length_reverse]
      have hrest : ∀ i < rest.length,
          picked (rest.length - 1 - i) ↔
            picked ((r :: rest).length - 1 - (i + 1)) := by
        intro i _
        rw [show (r :: rest).length - 1 - (i + 1) = rest.length - 1 - i by
          simp; omega]
      rw [rowsWhere_congr hrest]
      congr 1
      by_cases hlast : picked rest.length
      · rw [if_pos hlast, if_pos (by simpa using hlast)]
        rfl
      · rw [if_neg hlast, if_neg (by simpa using hlast)]
        rfl

/-- The rows that pass a test are the rows at the places where they stand. -/
theorem filter_eq_rowsWhere {passes : Rating α → Bool}
    (h : ∀ i r, rows[i]? = some r → (passes r = true ↔ picked i)) :
    rows.filter passes = rowsWhere picked rows := by
  induction rows generalizing picked with
  | nil => rfl
  | cons r rest ih =>
      rw [List.filter_cons, rowsWhere_cons,
        ih fun i q hq => h (i + 1) q (by simpa using hq)]
      by_cases hfirst : picked 0
      · rw [if_pos hfirst, if_pos ((h 0 r rfl).mpr hfirst)]
        rfl
      · rw [if_neg hfirst, if_neg (mt (h 0 r rfl).mp hfirst)]
        rfl

end Places

/-! ## Surviving places -/

/-- Does the row at place `j` count against the row at place `i`, if it repeats
it? -/
def KeepRule.Outranks : KeepRule → Nat → Nat → Prop
  | .first, j, i => j < i
  | .last, j, i => i < j
  | .none, j, i => j ≠ i

instance (rule : KeepRule) (j i : Nat) : Decidable (rule.Outranks j i) :=
  match rule with
  | .first => inferInstanceAs (Decidable (j < i))
  | .last => inferInstanceAs (Decidable (i < j))
  | .none => inferInstanceAs (Decidable (j ≠ i))

/-- No row that counts against the one at place `i` has the same key. -/
def Survives (rule : KeepRule) (keys : List Key) (i : Nat) : Prop :=
  ∀ j < keys.length, rule.Outranks j i → keys[j]? ≠ keys[i]?

instance (rule : KeepRule) (keys : List Key) :
    DecidablePred (Survives rule keys) := fun i =>
  inferInstanceAs (Decidable (∀ j < keys.length,
    rule.Outranks j i → keys[j]? ≠ keys[i]?))

/-- Rows at which no key is repeated that has been seen, or that an earlier row
has. -/
theorem firstsBeyond_eq_rowsWhere {seen : Std.HashSet Key}
    {rows : List (Rating α)} {picked : Nat → Prop} [DecidablePred picked]
    (h : ∀ i r, rows[i]? = some r →
      (picked i ↔ seen.contains (keyOf r) = false ∧
        ∀ j < i, (rows.map keyOf)[j]? ≠ some (keyOf r))) :
    firstsBeyond seen rows = rowsWhere picked rows := by
  induction rows generalizing seen picked with
  | nil => rfl
  | cons r rest ih =>
      have hrest : ∀ i q, rest[i]? = some q → (picked (i + 1) ↔
          seen.contains (keyOf q) = false ∧ keyOf r ≠ keyOf q ∧
            ∀ j < i, (rest.map keyOf)[j]? ≠ some (keyOf q)) := by
        intro i q hq
        rw [h (i + 1) q (by simpa using hq), Nat.forall_lt_succ_left]
        simp
      have hfirst : picked 0 ↔ seen.contains (keyOf r) = false := by
        rw [h 0 r rfl]
        simp
      rw [firstsBeyond, rowsWhere_cons]
      cases hseen : seen.contains (keyOf r) with
      | true =>
          rw [if_pos rfl, if_neg (by simp [hfirst, hseen]), List.nil_append]
          refine ih fun i q hq => ?_
          rw [hrest i q hq]
          have hne : seen.contains (keyOf q) = false → keyOf r ≠ keyOf q := by
            rintro hnew hsame
            rw [← hsame, hseen] at hnew
            cases hnew
          constructor
          · rintro ⟨hnew, -, hearlier⟩
            exact ⟨hnew, hearlier⟩
          · rintro ⟨hnew, hearlier⟩
            exact ⟨hnew, hne hnew, hearlier⟩
      | false =>
          rw [if_neg Bool.false_ne_true, if_pos (hfirst.mpr hseen),
            List.singleton_append]
          congr 1
          refine ih fun i q hq => ?_
          rw [hrest i q hq, Std.HashSet.contains_insert, Bool.or_eq_false_iff,
            beq_eq_false_iff_ne]
          tauto

private theorem survives_first_iff {rows : List (Rating α)} {i : Nat}
    {r : Rating α} (hr : rows[i]? = some r) :
    Survives .first (rows.map keyOf) i ↔
      ∀ j < i, (rows.map keyOf)[j]? ≠ some (keyOf r) := by
  have hlt := (List.getElem?_eq_some_iff.mp hr).1
  have hkey : (rows.map keyOf)[i]? = some (keyOf r) := by simp [hr]
  rw [Survives, hkey, List.length_map]
  exact ⟨fun h j hj => h j (by omega) hj, fun h j _ hj => h j hj⟩

private theorem firsts_eq_rowsWhere (rows : List (Rating α)) :
    firsts rows = rowsWhere (Survives .first (rows.map keyOf)) rows := by
  refine firstsBeyond_eq_rowsWhere fun i r hr => ?_
  rw [survives_first_iff hr, Std.HashSet.contains_empty]
  simp

private theorem lasts_eq_rowsWhere (rows : List (Rating α)) :
    lasts rows = rowsWhere (Survives .last (rows.map keyOf)) rows := by
  rw [lasts, firsts_eq_rowsWhere, rowsWhere_reverse, List.reverse_reverse]
  refine rowsWhere_congr fun i hi => ?_
  have hturned : ∀ j < rows.length, (rows.reverse.map keyOf)[j]? =
      (rows.map keyOf)[rows.length - 1 - j]? := by
    intro j hj
    rw [List.map_reverse, List.getElem?_reverse (by simpa using hj),
      List.length_map]
  rw [Survives, Survives, hturned _ (by omega), List.length_map,
    List.length_map, List.length_reverse,
    show rows.length - 1 - (rows.length - 1 - i) = i by omega]
  constructor
  · intro h j hj hlater
    have := h (rows.length - 1 - j) (by omega)
      (show rows.length - 1 - j < rows.length - 1 - i by
        have : i < j := hlater
        omega)
    rwa [hturned _ (by omega),
      show rows.length - 1 - (rows.length - 1 - j) = j by omega] at this
  · intro h j hj hearlier
    rw [hturned j hj]
    exact h _ (by omega) (show i < rows.length - 1 - j by
      have : j < rows.length - 1 - i := hearlier
      omega)

/-! ## Rows whose key occurs once -/

/-- The keys that are found to be repeated occur twice, among the rows or
before. -/
private theorem contains_foldl_repeated (rows : List (Rating α))
    (repeated seen : Std.HashSet Key) (k : Key) :
    (rows.foldl (fun (repeated, seen) r =>
        if seen.contains (keyOf r) then (repeated.insert (keyOf r), seen)
        else (repeated, seen.insert (keyOf r)))
        (repeated, seen)).1.contains k = true ↔
      repeated.contains k = true ∨
        2 ≤ (if seen.contains k then 1 else 0) + (rows.map keyOf).count k := by
  induction rows generalizing repeated seen with
  | nil =>
      rw [List.foldl_nil, List.map_nil, List.count_nil]
      split <;> simp
  | cons r rest ih =>
      rw [List.foldl_cons, List.map_cons, List.count_cons]
      dsimp only
      cases hseen : seen.contains (keyOf r) with
      | true =>
          rw [if_pos rfl, ih, Std.HashSet.contains_insert]
          by_cases hkey : keyOf r = k
          · subst hkey
            simp [hseen]
            omega
          · simp [hkey]
      | false =>
          rw [if_neg Bool.false_ne_true, ih, Std.HashSet.contains_insert]
          by_cases hkey : keyOf r = k
          · subst hkey
            simp [hseen, Nat.add_comm]
          · simp [hkey]

theorem contains_repeatedKeys (rows : List (Rating α)) (k : Key) :
    (repeatedKeys rows).1.contains k = true ↔ 2 ≤ (rows.map keyOf).count k := by
  rw [repeatedKeys, contains_foldl_repeated, Std.HashSet.contains_empty]
  simp

/-- A key occurs twice if it stands at two places. -/
theorem two_le_count_iff {keys : List Key} {i : Nat} {k : Key}
    (hi : keys[i]? = some k) : 2 ≤ keys.count k ↔ ¬ Survives .none keys i := by
  obtain ⟨hlt, hkey⟩ := List.getElem?_eq_some_iff.mp hi
  have hsurvives : ¬ Survives .none keys i ↔
      ∃ j < keys.length, j ≠ i ∧ keys[j]? = some k := by
    rw [Survives, hi]
    push Not
    rfl
  rw [hsurvives, ← List.duplicate_iff_two_le_count,
    List.duplicate_iff_exists_distinct_get]
  constructor
  · rintro ⟨m, n, hmn, hm, hn⟩
    by_cases hsame : m.val = i
    · exact ⟨n, n.isLt, by have : m.val < n.val := hmn; omega,
        List.getElem?_eq_some_iff.mpr ⟨n.isLt, hn.symm⟩⟩
    · exact ⟨m, m.isLt, hsame, List.getElem?_eq_some_iff.mpr ⟨m.isLt, hm.symm⟩⟩
  · rintro ⟨j, hj, hne, hget⟩
    obtain ⟨_, hother⟩ := List.getElem?_eq_some_iff.mp hget
    rcases Nat.lt_or_gt_of_ne hne with hlt' | hgt
    · exact ⟨⟨j, hj⟩, ⟨i, hlt⟩, hlt', hother.symm, hkey.symm⟩
    · exact ⟨⟨i, hlt⟩, ⟨j, hj⟩, hgt, hkey.symm, hother.symm⟩

private theorem singles_eq_rowsWhere (rows : List (Rating α)) :
    singles rows = rowsWhere (Survives .none (rows.map keyOf)) rows := by
  refine filter_eq_rowsWhere fun i r hr => ?_
  have hkey : (rows.map keyOf)[i]? = some (keyOf r) := by simp [hr]
  have hrepeated := contains_repeatedKeys rows (keyOf r)
  rw [two_le_count_iff hkey] at hrepeated
  rw [Bool.not_eq_true', ← Bool.not_eq_true]
  exact (not_congr hrepeated).trans Classical.not_not

/-- The rows that are kept, by their places. -/
theorem kept_eq_rowsWhere (rule : KeepRule) (rows : List (Rating α)) :
    kept rule rows = rowsWhere (Survives rule (rows.map keyOf)) rows := by
  cases rule with
  | first => exact firsts_eq_rowsWhere rows
  | last => exact lasts_eq_rowsWhere rows
  | none => exact singles_eq_rowsWhere rows

example :
    kept .last [⟨1, 2, 3, .train⟩, ⟨1, 2, 4, .validate⟩, ⟨1, 2, 5, .train⟩] =
      ([⟨1, 2, 4, .validate⟩, ⟨1, 2, 5, .train⟩] : List (Rating Nat)) := by
  cbv

/-! ## One row for each key -/

/-- A table has one row for each key of another, namely the one that comes first
among the given occurrences. -/
structure OnePerKey (rows occurrences left : List (Rating α)) : Prop where
  noRepeats : NoRepeats left
  /-- No key is lost, and none is made up. -/
  mem_keys : ∀ k, k ∈ left.map keyOf ↔ k ∈ rows.map keyOf
  find?_eq : ∀ k, left.find? (fun r => keyOf r = k) =
    occurrences.find? (fun r => keyOf r = k)
  /-- The same pair is kept once for each of its roles. -/
  count_eq : ∀ source target role,
    (left.map keyOf).count ⟨source, target, role⟩ =
      min 1 ((rows.map keyOf).count ⟨source, target, role⟩)

private theorem mem_keys_iff_find? {rows : List (Rating α)} {k : Key} :
    k ∈ rows.map keyOf ↔ (rows.find? (fun r => keyOf r = k)).isSome = true := by
  rw [List.find?_isSome, List.mem_map]
  simp only [decide_eq_true_eq]

private theorem onePerKey_of_find? {rows occurrences left : List (Rating α)}
    (hnodup : NoRepeats left) (hsame : ∀ r, r ∈ occurrences ↔ r ∈ rows)
    (hfind : ∀ k, left.find? (fun r => keyOf r = k) =
      occurrences.find? (fun r => keyOf r = k)) :
    OnePerKey rows occurrences left := by
  have hkeys : ∀ k, k ∈ left.map keyOf ↔ k ∈ rows.map keyOf := by
    intro k
    rw [mem_keys_iff_find?, hfind, ← mem_keys_iff_find?, List.mem_map,
      List.mem_map]
    simp only [hsame]
  refine ⟨hnodup, hkeys, hfind, fun source target role => ?_⟩
  rw [List.Nodup.count hnodup]
  by_cases hmem : (⟨source, target, role⟩ : Key) ∈ rows.map keyOf
  · have := List.count_pos_iff.mpr hmem
    rw [if_pos ((hkeys _).mpr hmem)]
    omega
  · rw [if_neg (mt (hkeys _).mp hmem), List.count_eq_zero.mpr hmem]
    rfl

/-- A key that has not been seen keeps its first row. -/
theorem find?_firstsBeyond {seen : Std.HashSet Key} {k : Key}
    (hnew : seen.contains k = false) (rows : List (Rating α)) :
    (firstsBeyond seen rows).find? (fun r => keyOf r = k) =
      rows.find? (fun r => keyOf r = k) := by
  fun_induction firstsBeyond seen rows with
  | case1 => rfl
  | case2 seen r rest hseen ih =>
      have hne : keyOf r ≠ k := by
        rintro rfl
        rw [hseen] at hnew
        cases hnew
      rw [ih hnew, List.find?_cons_of_neg (by simpa using hne)]
  | case3 seen r rest hseen ih =>
      by_cases hkey : keyOf r = k
      · rw [List.find?_cons_of_pos (by simpa using hkey),
          List.find?_cons_of_pos (by simpa using hkey)]
      · rw [List.find?_cons_of_neg (by simpa using hkey),
          List.find?_cons_of_neg (by simpa using hkey)]
        refine ih ?_
        rw [Std.HashSet.contains_insert, hnew, Bool.or_false]
        exact beq_eq_false_iff_ne.mpr hkey

theorem onePerKey_firsts (rows : List (Rating α)) :
    OnePerKey rows rows (firsts rows) :=
  onePerKey_of_find? (nodup_firstsBeyond ∅ rows) (fun _ => Iff.rfl)
    fun _ => find?_firstsBeyond Std.HashSet.contains_empty rows

/-- In a table without repeated rows it does not matter from where a key is
looked for. -/
theorem find?_reverse_of_noRepeats {rows : List (Rating α)} (h : NoRepeats rows)
    (k : Key) :
    rows.reverse.find? (fun r => keyOf r = k) =
      rows.find? (fun r => keyOf r = k) := by
  induction rows with
  | nil => rfl
  | cons r rest ih =>
      obtain ⟨hr, hrest⟩ := List.nodup_cons.mp h
      rw [List.reverse_cons, List.find?_append, ih hrest]
      by_cases hkey : keyOf r = k
      · have hnone : rest.find? (fun r => keyOf r = k) = none := by
          rw [← Option.not_isSome_iff_eq_none, ← mem_keys_iff_find?]
          exact hkey ▸ hr
        rw [hnone, Option.none_or, List.find?_cons_of_pos (by simpa using hkey),
          List.find?_cons_of_pos (by simpa using hkey)]
      · rw [List.find?_cons_of_neg (by simpa using hkey), List.find?_nil,
          Option.or_none, List.find?_cons_of_neg (by simpa using hkey)]

theorem onePerKey_lasts (rows : List (Rating α)) :
    OnePerKey rows rows.reverse (lasts rows) :=
  onePerKey_of_find? (nodup_lasts rows) (fun _ => List.mem_reverse) fun k => by
    have hnodup : NoRepeats (firsts rows.reverse) :=
      nodup_firstsBeyond ∅ rows.reverse
    rw [lasts, find?_reverse_of_noRepeats hnodup, firsts,
      find?_firstsBeyond Std.HashSet.contains_empty]

private theorem noRepeats_singles (rows : List (Rating α)) :
    NoRepeats (singles rows) := by
  refine List.nodup_iff_count_le_one.mpr fun k => ?_
  by_cases hmem : k ∈ (singles rows).map keyOf
  · obtain ⟨r, hr, rfl⟩ := List.mem_map.mp hmem
    have honce : ¬ 2 ≤ (rows.map keyOf).count (keyOf r) := by
      rw [← contains_repeatedKeys, Bool.not_eq_true]
      exact Bool.not_eq_true' _ ▸ (List.mem_filter.mp hr).2
    have hle : ((singles rows).map keyOf).count (keyOf r) ≤
        (rows.map keyOf).count (keyOf r) :=
      (List.filter_sublist.map keyOf).count_le _
    omega
  · rw [List.count_eq_zero.mpr hmem]
    exact Nat.zero_le 1

theorem noRepeats_kept (rule : KeepRule) (rows : List (Rating α)) :
    NoRepeats (kept rule rows) := by
  cases rule with
  | first => exact nodup_firstsBeyond ∅ rows
  | last => exact nodup_lasts rows
  | none => exact noRepeats_singles rows

/-! ## Keeping again, and keeping renumbered rows -/

theorem rowsWhere_eq_self {picked : Nat → Prop} [DecidablePred picked]
    {rows : List (Rating α)} (h : ∀ i < rows.length, picked i) :
    rowsWhere picked rows = rows := by
  induction rows generalizing picked with
  | nil => rfl
  | cons r rest ih =>
      rw [rowsWhere_cons, if_pos (h 0 (by simp)),
        ih fun i hi => h (i + 1) (by simpa using hi)]
      rfl

theorem KeepRule.Outranks.ne {rule : KeepRule} {j i : Nat}
    (h : rule.Outranks j i) : j ≠ i := by
  cases rule with
  | first => exact Nat.ne_of_lt h
  | last => exact Nat.ne_of_gt h
  | none => exact h

/-- Every rule keeps a table in which nothing is repeated. -/
theorem kept_eq_self (rule : KeepRule) {rows : List (Rating α)}
    (h : NoRepeats rows) : kept rule rows = rows := by
  rw [kept_eq_rowsWhere]
  refine rowsWhere_eq_self fun i _ j hj hrank hsame => ?_
  exact hrank.ne ((List.getElem?_inj hj h).mp hsame)

theorem lasts_eq_self {rows : List (Rating α)} (h : NoRepeats rows) :
    lasts rows = rows :=
  kept_eq_self .last h

/-- A change of the rows that keeps different keys different does not change
which places survive. -/
theorem survives_map {change : Rating α → Rating α}
    (h : ∀ q r : Rating α,
      keyOf (change q) = keyOf (change r) ↔ keyOf q = keyOf r) (rule : KeepRule)
    (rows : List (Rating α)) (i : Nat) :
    Survives rule ((rows.map change).map keyOf) i ↔
      Survives rule (rows.map keyOf) i := by
  have hkeys : ∀ j : Nat,
      ((rows.map change).map keyOf)[j]? = ((rows.map change).map keyOf)[i]? ↔
        (rows.map keyOf)[j]? = (rows.map keyOf)[i]? := by
    intro j
    simp only [List.getElem?_map]
    cases rows[j]? with
    | none => cases rows[i]? <;> simp
    | some q =>
        cases rows[i]? with
        | none => simp
        | some r => simpa using h q r
  simp only [Survives, Ne, hkeys, List.length_map]

theorem kept_map {change : Rating α → Rating α}
    (h : ∀ q r : Rating α,
      keyOf (change q) = keyOf (change r) ↔ keyOf q = keyOf r) (rule : KeepRule)
    (rows : List (Rating α)) :
    kept rule (rows.map change) = (kept rule rows).map change := by
  rw [kept_eq_rowsWhere, kept_eq_rowsWhere, rowsWhere_map]
  exact congrArg _ (rowsWhere_congr fun i _ => survives_map h rule rows i)

theorem kept_moveColumns (rule : KeepRule) (rows : List (Rating α)) :
    kept rule (moveColumns rows) = moveColumns (kept rule rows) :=
  kept_map keyOf_moved_inj rule rows

theorem lasts_moveColumns (rows : List (Rating α)) :
    lasts (moveColumns rows) = moveColumns (lasts rows) :=
  kept_moveColumns .last rows

/-! ## Removing repeated rows -/

/-- Removing repeated rows always goes through.  If any were removed, their
number is printed. -/
theorem perform_withoutRepeats (rule : KeepRule) (rows : List (Rating α))
    (printed : List String) :
    (withoutRepeats rule rows).perform printed = (.ok (kept rule rows),
      printed ++ if 0 < rows.length - (kept rule rows).length then
          [s!"Удалено дубликатов: {rows.length - (kept rule rows).length}"]
        else []) := by
  rw [withoutRepeats]
  dsimp only
  by_cases hfewer : (kept rule rows).length < rows.length
  · rw [if_pos hfewer, if_pos (by omega)]
    rfl
  · rw [if_neg hfewer, if_neg (by omega), List.append_nil]
    rfl

theorem withoutRepeats_moveColumns (rule : KeepRule) (rows : List (Rating α)) :
    withoutRepeats rule (moveColumns rows) =
      moveColumns <$> withoutRepeats rule rows := by
  rw [withoutRepeats, withoutRepeats, kept_moveColumns]
  dsimp only
  rw [show (moveColumns rows).length = rows.length from List.length_map _,
    show (moveColumns (kept rule rows)).length = (kept rule rows).length from
      List.length_map _]
  split <;> simp

/-- Removing repeated rows leaves exactly the rows with no earlier, no later or
no other row of the same key, in the order of the table.  With the first or the
last row kept, there is one row for each key that occurs, with the value of its
first or last occurrence.  Removing again changes nothing, the number of removed
rows is printed if there are any, and columns may be moved before or after. -/
theorem kept_exactly (rows : List (Rating α)) :
    (∀ rule, kept rule rows = rowsWhere (Survives rule (rows.map keyOf)) rows) ∧
      OnePerKey rows rows (kept .first rows) ∧
      OnePerKey rows rows.reverse (kept .last rows) ∧
      (∀ rule, kept rule (kept rule rows) = kept rule rows) ∧
      (∀ rule printed,
        (withoutRepeats rule rows).perform printed = (.ok (kept rule rows),
          printed ++ if 0 < rows.length - (kept rule rows).length then
              [s!"Удалено дубликатов: {rows.length - (kept rule rows).length}"]
            else [])) ∧
      ∀ rule, withoutRepeats rule (moveColumns rows) =
        moveColumns <$> withoutRepeats rule rows :=
  ⟨fun rule => kept_eq_rowsWhere rule rows, onePerKey_firsts rows,
    onePerKey_lasts rows,
    fun rule => kept_eq_self rule (noRepeats_kept rule rows),
    fun rule printed => perform_withoutRepeats rule rows printed,
    fun rule => withoutRepeats_moveColumns rule rows⟩

end RatingFactors.Ratings
