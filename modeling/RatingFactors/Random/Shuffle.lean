import RatingFactors.Random.Twister

/-!
# Shuffling

A list is shuffled from its end: the element at each place, the last first,
changes places with one drawn from those up to it. Every step is an exchange, so
a shuffle only reorders.
-/

namespace RatingFactors

namespace Twister

/-- Exchanges two elements; places outside the array change nothing. -/
def exchange {β : Type} (items : Array β) (i j : Nat) : Array β :=
  items.swapIfInBounds i j

/-- Draws a partner for each of the places `i`, `i - 1`, …, 1 and exchanges. -/
def shuffleFrom {β : Type} : Nat → Array β → StateM Twister (Array β)
  | 0, items => return items
  | i + 1, items => do
    let j ← below (i + 1)
    shuffleFrom i (exchange items (i + 1) j)

/-- A list in an order drawn from the source. -/
def shuffle {β : Type} (items : List β) : StateM Twister (List β) := do
  let shuffled ← shuffleFrom (items.length - 1) items.toArray
  return shuffled.toList

end Twister

end RatingFactors
