/-!
# Identifiers and places

The vertices of a graph are known outside by signed 64-bit identifiers and
inside by their place in the increasing list of all identifiers. The list is
made by sorting and dropping repetitions, and an identifier is looked up by
halving.

## Main definitions

* `places` — the increasing list of the identifiers that occur.
* `placeOf?` — the place of an identifier, if it occurs.
-/

namespace RatingFactors

/-- Drops every element that equals its successor. -/
def dropRepeats : List Int64 → List Int64
  | a :: b :: rest =>
    if a = b then dropRepeats (b :: rest) else a :: dropRepeats (b :: rest)
  | short => short

/-- The identifiers that occur, each once, in increasing order. -/
def places (ids : List Int64) : Array Int64 :=
  (dropRepeats (ids.mergeSort fun a b => decide (a ≤ b))).toArray

/-- Looks for an identifier from place `low` up to, but not including, place
`high`. -/
def searchBetween (ids : Array Int64) (id : Int) (low high : Nat) :
    Option Nat :=
  if low < high then
    let middle := (low + high) / 2
    match ids[middle]? with
    | none => none
    | some found =>
      if found.toInt = id then some middle
      else if found.toInt < id then searchBetween ids id (middle + 1) high
      else searchBetween ids id low middle
  else none
termination_by high - low
decreasing_by all_goals omega

/-- The place of an identifier in an increasing list. -/
def placeOf? (ids : Array Int64) (id : Int) : Option Nat :=
  searchBetween ids id 0 ids.size

/-- What the search finds carries the identifier that was looked for. -/
theorem getElem?_of_searchBetween {ids : Array Int64} {id : Int}
    {low high place : Nat} (h : searchBetween ids id low high = some place) :
    ∃ found, ids[place]? = some found ∧ found.toInt = id := by
  fun_induction searchBetween ids id low high with
  | case1 => simp at h
  | case2 low high _ middle found hfound heq =>
    obtain rfl : middle = place := by simpa using h
    exact ⟨found, hfound, heq⟩
  | case3 _ _ _ _ _ _ _ _ ih => exact ih h
  | case4 _ _ _ _ _ _ _ _ ih => exact ih h
  | case5 => simp at h

end RatingFactors
