import RatingFactors.Graph.Places

/-!
# The list of places

`places` lists every identifier that occurs exactly once, in increasing order,
and looking an identifier up by halving finds it if and only if it occurs.

## Main results

* `mem_places`, `pairwise_places` — membership and order of the list.
* `placeOf?_getElem` — an identifier of an increasing list is found where it
  stands.
* `isSome_placeOf?_places` — what is found is what occurs.
-/

namespace RatingFactors

theorem mem_dropRepeats {id : Int64} {ids : List Int64} :
    id ∈ dropRepeats ids ↔ id ∈ ids := by
  fun_induction dropRepeats ids with
  | case1 a rest ih =>
      rw [ih]
      simp
  | case2 a b rest hne ih =>
      rw [List.mem_cons, ih, List.mem_cons (a := id) (b := a)]
  | case3 ids hshort => rfl

/-- Dropping repeated neighbours makes a sorted list strictly increasing. -/
private theorem pairwise_dropRepeats {ids : List Int64}
    (h : ids.Pairwise (· ≤ ·)) : (dropRepeats ids).Pairwise (· < ·) := by
  fun_induction dropRepeats ids with
  | case1 a rest ih => exact ih h.tail
  | case2 a b rest hne ih =>
      rw [List.pairwise_cons]
      refine ⟨?_, ih h.tail⟩
      intro c hc
      obtain ⟨ha, htail⟩ := List.pairwise_cons.mp h
      have hab : a < b :=
        Int64.lt_iff_le_and_ne.mpr ⟨ha b (by simp), hne⟩
      rcases List.mem_cons.mp (mem_dropRepeats.mp hc) with rfl | hrest
      · exact hab
      · exact Int64.lt_of_lt_of_le hab ((List.pairwise_cons.mp htail).1 c hrest)
  | case3 ids hshort =>
      match ids, hshort with
      | [], _ => exact List.Pairwise.nil
      | [a], _ => exact List.pairwise_singleton _ a
      | a :: b :: rest, hshort => exact absurd rfl (hshort a b rest)

theorem mem_places {id : Int64} {ids : List Int64} :
    id ∈ places ids ↔ id ∈ ids := by
  rw [places, List.mem_toArray, mem_dropRepeats, List.mem_mergeSort]

theorem pairwise_places (ids : List Int64) :
    (places ids).toList.Pairwise (· < ·) := by
  apply pairwise_dropRepeats
  have hsorted := @List.pairwise_mergeSort Int64
    (fun a b => decide (a ≤ b))
    (by
      intro a b c hab hbc
      rw [decide_eq_true_eq] at hab hbc ⊢
      exact Int64.le_trans hab hbc)
    (by
      intro a b
      rw [Bool.or_eq_true, decide_eq_true_eq, decide_eq_true_eq]
      exact Int64.le_total a b)
    ids
  exact hsorted.imp fun h => of_decide_eq_true h

/-- The list depends only on which identifiers occur. -/
theorem places_congr {ids others : List Int64}
    (h : ∀ id, id ∈ ids ↔ id ∈ others) : places ids = places others := by
  have hne : ∀ a b : Int64, a < b → a ≠ b := fun a b hab => Int64.ne_of_lt hab
  have hnodup : ∀ ids : List Int64, (places ids).toList.Nodup := fun ids =>
    (pairwise_places ids).imp (hne _ _)
  have hperm : (places ids).toList.Perm (places others).toList := by
    rw [List.perm_ext_iff_of_nodup (hnodup ids) (hnodup others)]
    intro id
    rw [Array.mem_toList_iff, Array.mem_toList_iff, mem_places, mem_places, h]
  have hantisymm : ∀ a b : Int64, a < b → b < a → a = b := fun a b hab hba =>
    absurd (Int64.lt_trans hab hba) Int64.lt_irrefl
  exact Array.ext' (hperm.eq_of_pairwise (fun a b _ _ => hantisymm a b)
    (pairwise_places ids) (pairwise_places others))

/-! ## Looking up -/

/-- In an increasing list a smaller place carries a smaller identifier. -/
theorem toInt_lt_of_lt {ids : Array Int64}
    (h : ids.toList.Pairwise (· < ·)) {i j : Nat} (hij : i < j)
    (hi : i < ids.size) (hj : j < ids.size) :
    ids[i].toInt < ids[j].toInt := by
  have := List.pairwise_iff_getElem.mp h i j
    (by simpa using hi) (by simpa using hj) hij
  simpa [Int64.lt_iff_toInt_lt] using this

/-- The search finds what stands between its bounds. -/
theorem searchBetween_eq_some {ids : Array Int64} {place low high : Nat}
    (h : ids.toList.Pairwise (· < ·)) (hplace : place < ids.size)
    (hlow : low ≤ place) (hhigh : place < high) (hsize : high ≤ ids.size) :
    searchBetween ids ids[place].toInt low high = some place := by
  fun_induction searchBetween ids ids[place].toInt low high with
  | case1 low high hlt middle hget =>
      have hmiddle : middle < ids.size := by omega
      rw [Array.getElem?_eq_getElem hmiddle] at hget
      cases hget
  | case2 low high hlt middle found hget heq =>
      obtain ⟨hmiddle, rfl⟩ := Array.getElem?_eq_some_iff.mp hget
      rcases Nat.lt_trichotomy middle place with hlt' | heq' | hgt
      · have := toInt_lt_of_lt h hlt' hmiddle hplace
        omega
      · rw [heq']
      · have := toInt_lt_of_lt h hgt hplace hmiddle
        omega
  | case3 low high hlt middle found hget hne hless ih =>
      obtain ⟨hmiddle, rfl⟩ := Array.getElem?_eq_some_iff.mp hget
      have hge : middle < place := by
        apply Nat.lt_of_not_le
        intro hle
        rcases Nat.lt_or_eq_of_le hle with hgt | heq'
        · have := toInt_lt_of_lt h hgt hplace hmiddle
          omega
        · simp [heq'] at hne
      exact ih hge hhigh hsize
  | case4 low high hlt middle found hget hne hless ih =>
      obtain ⟨hmiddle, rfl⟩ := Array.getElem?_eq_some_iff.mp hget
      have hlt' : place < middle := by
        apply Nat.lt_of_not_le
        intro hle
        rcases Nat.lt_or_eq_of_le hle with hgt | heq'
        · have := toInt_lt_of_lt h hgt hmiddle hplace
          omega
        · simp [heq'] at hne
      exact ih hlow hlt' (by omega)
  | case5 low high hge => omega

/-- An identifier of an increasing list is found where it stands. -/
theorem placeOf?_getElem {ids : Array Int64}
    (h : ids.toList.Pairwise (· < ·)) {place : Nat}
    (hplace : place < ids.size) :
    placeOf? ids ids[place].toInt = some place :=
  searchBetween_eq_some h hplace (Nat.zero_le _) hplace (Nat.le_refl _)

/-- An identifier that occurs is found, at a place that carries it. -/
theorem placeOf?_of_mem {ids : Array Int64}
    (h : ids.toList.Pairwise (· < ·)) {id : Int64} (hid : id ∈ ids) :
    ∃ place, placeOf? ids id.toInt = some place ∧ ids[place]? = some id := by
  obtain ⟨place, hplace, rfl⟩ := Array.mem_iff_getElem.mp hid
  exact ⟨place, placeOf?_getElem h hplace, Array.getElem?_eq_getElem hplace⟩

/-- What is found occurs. -/
theorem mem_of_placeOf? {ids : Array Int64} {id : Int64} {place : Nat}
    (h : placeOf? ids id.toInt = some place) : id ∈ ids := by
  obtain ⟨found, hget, hsame⟩ := getElem?_of_searchBetween h
  exact Int64.toInt_inj.mp hsame ▸ Array.mem_of_getElem? hget

/-- An identifier is found in the list of all that occur exactly if it
occurs. -/
theorem isSome_placeOf?_places {ids : List Int64} {id : Int64} :
    (placeOf? (places ids) id.toInt).isSome = true ↔ id ∈ ids := by
  rw [Option.isSome_iff_exists]
  constructor
  · rintro ⟨place, hplace⟩
    exact mem_places.mp (mem_of_placeOf? hplace)
  · intro hid
    obtain ⟨place, hplace, -⟩ :=
      placeOf?_of_mem (pairwise_places ids) (mem_places.mpr hid)
    exact ⟨place, hplace⟩

end RatingFactors
