import Mathlib.Algebra.Ring.Int.Defs
import Mathlib.Data.List.Nodup
import RatingFactors.Ratings.Table

/-!
# Tables without repeated rows

The first rows of all keys have different keys, and so do the last ones.  Moved
columns lie below zero, where no row is, and different keys stay different when
columns are moved.

## Main results

* `nodup_lasts` — the kept rows have different keys.
* `source_ne_target_of_moved` — moved columns are apart from the rows.
* `keyOf_moved_inj` — moving columns keeps different keys different.
-/

namespace RatingFactors.Ratings

variable {α : Type}

/-! ## First rows -/

/-- No two rows have one key. -/
def NoRepeats (rows : List (Rating α)) : Prop :=
  (rows.map keyOf).Nodup

theorem mem_of_mem_firstsBeyond {seen : Std.HashSet Key}
    {rows : List (Rating α)} {r : Rating α} (h : r ∈ firstsBeyond seen rows) :
    r ∈ rows ∧ seen.contains (keyOf r) = false := by
  fun_induction firstsBeyond seen rows with
  | case1 => cases h
  | case2 seen q rest hseen ih =>
      obtain ⟨hmem, hnew⟩ := ih h
      exact ⟨List.mem_cons_of_mem _ hmem, hnew⟩
  | case3 seen q rest hnew ih =>
      rcases List.mem_cons.mp h with rfl | h
      · exact ⟨List.mem_cons_self .., Bool.eq_false_iff.mpr hnew⟩
      · obtain ⟨hmem, hnot⟩ := ih h
        rw [Std.HashSet.contains_insert, Bool.or_eq_false_iff] at hnot
        exact ⟨List.mem_cons_of_mem _ hmem, hnot.2⟩

theorem nodup_firstsBeyond (seen : Std.HashSet Key) (rows : List (Rating α)) :
    NoRepeats (firstsBeyond seen rows) := by
  fun_induction firstsBeyond seen rows with
  | case1 => exact List.nodup_nil
  | case2 seen r rest hseen ih => exact ih
  | case3 seen r rest hnew ih =>
      refine List.nodup_cons.mpr ⟨fun hmem => ?_, ih⟩
      obtain ⟨q, hq, hkey⟩ := List.mem_map.mp hmem
      have hnot := (mem_of_mem_firstsBeyond hq).2
      rw [Std.HashSet.contains_insert, hkey] at hnot
      simp at hnot

/-! ## Last rows -/

theorem mem_of_mem_lasts {rows : List (Rating α)} {r : Rating α}
    (h : r ∈ lasts rows) : r ∈ rows := by
  rw [lasts, List.mem_reverse] at h
  exact List.mem_reverse.mp (mem_of_mem_firstsBeyond h).1

/-- The kept rows have different keys. -/
theorem nodup_lasts (rows : List (Rating α)) : NoRepeats (lasts rows) := by
  rw [NoRepeats, lasts, List.map_reverse, List.nodup_reverse]
  exact nodup_firstsBeyond ∅ rows.reverse

/-- A table with rows keeps some. -/
theorem lasts_ne_nil {rows : List (Rating α)} (h : rows ≠ []) :
    lasts rows ≠ [] := by
  intro hnil
  rw [lasts, List.reverse_eq_nil_iff] at hnil
  obtain ⟨r, rest, hrows⟩ :=
    List.exists_cons_of_ne_nil (mt List.reverse_eq_nil_iff.mp h)
  rw [hrows, firsts, firstsBeyond, Std.HashSet.contains_empty] at hnil
  simp at hnil

/-! ## Moved columns -/

theorem movedId_inj {s t : Int64} : movedId s = movedId t ↔ s = t := by
  rw [movedId, movedId, Int64.neg_inj, Int64.add_left_inj]

/-- Columns are moved below zero, as long as their numbers leave room for it. -/
theorem toInt_movedId {t : Int64} (hlow : 0 ≤ t.toInt)
    (hhigh : t.toInt ≤ 2 ^ 63 - 2) : (movedId t).toInt = -(t.toInt + 2) := by
  have htwo : (2 : Int64).toInt = 2 := rfl
  rw [movedId, Int64.toInt_neg, Int64.toInt_add, htwo]
  simp only [Int.bmod]
  omega

theorem mem_moveColumns {rows : List (Rating α)} {r : Rating α} :
    r ∈ moveColumns rows ↔
      ∃ q ∈ rows, { q with target := movedId q.target } = r :=
  List.mem_map

/-- After columns are moved, no identifier is both a row's and a column's. -/
theorem source_ne_target_of_moved {rows : List (Rating α)}
    (hsources : ∀ r ∈ rows, 0 ≤ r.source.toInt)
    (htargets : ∀ r ∈ rows, 0 ≤ r.target.toInt ∧ r.target.toInt ≤ 2 ^ 63 - 2) :
    ∀ q ∈ moveColumns rows, ∀ r ∈ moveColumns rows, q.source ≠ r.target := by
  intro q hq r hr hsame
  obtain ⟨q', hq', rfl⟩ := mem_moveColumns.mp hq
  obtain ⟨r', hr', rfl⟩ := mem_moveColumns.mp hr
  have hnumber : q'.source.toInt = (movedId r'.target).toInt :=
    congrArg Int64.toInt hsame
  have hmoved := toInt_movedId (htargets r' hr').1 (htargets r' hr').2
  have hsource := hsources q' hq'
  have htarget := (htargets r' hr').1
  omega

theorem keyOf_moved_inj (q r : Rating α) :
    keyOf { q with target := movedId q.target } =
        keyOf { r with target := movedId r.target } ↔
      keyOf q = keyOf r := by
  simp [keyOf, movedId_inj]

end RatingFactors.Ratings
