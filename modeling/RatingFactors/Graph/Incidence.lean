/-!
# Incidence lists

For each vertex the numbers of the edges that leave it, or of those that enter
it. The edges are gone through from the last to the first and each puts its
number in front of the list at its end, so every list is increasing, and every
edge stands in exactly one list of each kind.
-/

namespace RatingFactors

/-- Puts edge number `edge` in front of the list at place `place`. -/
def attach (lists : Array (List Nat)) (place edge : Nat) : Array (List Nat) :=
  lists.modify place (edge :: ·)

/-- For each of `count` places the increasing list of the edges that end there,
where `ends` gives the end of each edge in order. -/
def incidence (count : Nat) (ends : List Nat) : Array (List Nat) :=
  ends.zipIdx.foldr (fun (place, edge) lists => attach lists place edge)
    (Array.replicate count [])

/-- There is one list for each place. -/
theorem size_incidence (count : Nat) (ends : List Nat) :
    (incidence count ends).size = count := by
  unfold incidence
  generalize ends.zipIdx = numbered
  induction numbered with
  | nil => simp
  | cons head rest ih => simpa [attach] using ih

end RatingFactors
