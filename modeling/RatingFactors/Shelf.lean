import RatingFactors.Attempt
import RatingFactors.Step

/-!
# Steps that change in place

A step can be changed where it stands: another one is added into it, and whoever
holds it sees the sum. The steps that a caller has made stand on a shelf, each
under the number it was put there with. Combining two of them makes a third,
from a copy of the first.

## Main definitions

* `Step.absorb` — adds a step into the one at hand; if the two do not fit, that
  one stays.
* `Step.copy` — the same step once more.
* `Shelf.absorb`, `Shelf.combine` — the same by number: in place, and into a new
  step.
-/

namespace RatingFactors

namespace Step

variable {α : Type} [Scalar α]

/-- The same step once more, as the constructor makes it. -/
def copy (s : Step α) : Step α :=
  of s.delta s.bias

/-- Adds a step into the one at hand, coordinates first. Lengths that do not fit
are found out before anything is changed. -/
def absorb (other : Step α) : Attempt (Step α) Unit := do
  let own ← get
  if own.isEmpty then
    modify fun s => { s with delta := other.delta }
    modify fun s => { s with bias := other.bias }
  else if other.isEmpty then pure ()
  else if own.delta.length = other.delta.length then
    modify fun s => { s with delta := List.zipWith (· + ·) s.delta other.delta }
    modify fun s => { s with bias := s.bias + other.bias }
  else throw (.stepLengths own.delta.length other.delta.length)

end Step

/-- The steps that a caller has made, by number. -/
abbrev Shelf (α : Type) : Type :=
  Array (Step α)

namespace Shelf

variable {α : Type} [Scalar α]

/-- The step under a number. -/
def step (shelf : Shelf α) (number : Nat) : Step α :=
  shelf.getD number Step.empty

/-- Puts a step on the shelf: the number it stands under. -/
def put (s : Step α) : Attempt (Shelf α) Nat := do
  let shelf ← get
  set (shelf.push s)
  return shelf.size

/-- Adds one step of the shelf into another, in place. -/
def absorb (own other : Nat) : Attempt (Shelf α) Unit := do
  let shelf ← get
  let (answer, changed) :=
    (Step.absorb (shelf.step other)).perform (shelf.step own)
  set (shelf.setIfInBounds own changed)
  Attempt.lift answer

/-- Puts the sum of two steps on the shelf, made in a copy of the first. -/
def combine (left right : Nat) : Attempt (Shelf α) Nat := do
  let shelf ← get
  let number ← put (shelf.step left).copy
  absorb number right
  return number

end Shelf

end RatingFactors
