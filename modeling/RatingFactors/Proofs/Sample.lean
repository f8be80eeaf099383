import RatingFactors.Proofs.Graph.Faithful
import RatingFactors.Training

/-!
# A sample on whole numbers

Whole numbers are scalars, and their addition is exact.  This module gives them
the operations that learning asks for, and a small graph of ratings to run it
on: three rows, of which the last has no training edge, and two columns.

## Main results

* `sampleGraph_bipartite` — the sample has the shape that learning expects.
-/

namespace RatingFactors

/-- Whole numbers as scalars.  Quotients and roots are rounded down. -/
instance : Scalar Int where
  zero := 0
  ofInt := id
  less x y := decide (x < y)
  same x y := decide (x = y)
  isNaN _ := false
  isInfinite _ := false
  root x :=
    ((List.range (x.toNat + 1)).filter fun n => n * n ≤ x.toNat).getLastD 0
  text := toString
  fixed digits x :=
    toString x ++ if digits = 0 then "" else
      "." ++ String.ofList (List.replicate digits '0')

/-- Four ratings; the last is held out. -/
def sampleGraph : Graph Int where
  ids := #[1, 2, 3, 10, 11]
  edges := #[⟨0, 3, 4, .train⟩, ⟨1, 3, 2, .train⟩, ⟨1, 4, 5, .train⟩,
    ⟨2, 4, 1, .validate⟩]
  incoming := #[[], [], [], [0, 1], [2, 3]]
  outgoing := #[[0], [1, 2], [3], [], []]
  dimension := 2

theorem sampleGraph_bipartite : sampleGraph.Bipartite where
  source_lt := by decide
  target_lt := by decide
  edgesInto_eq := by decide
  edgesOutOf_eq := by decide
  placeOf_idAt := fun _ hv =>
    Graph.placeOf_idAt_of_pairwise (by decide) hv
  source_ne_target := by decide
  known := by decide

/-- The vertices of the sample before any learning. -/
def sampleVertices : Array (Vertex Int) :=
  #[⟨[1, 0], 0, 0⟩, ⟨[0, 1], 0, 0⟩, ⟨[1, 1], 0, 0⟩, ⟨[2, 1], 0, 0⟩,
    ⟨[1, 3], 0, 0⟩]

/-- Settings for the sample, with a budget of two updates for each vertex. -/
def sampleSettings : Settings Int where
  dimension := 2
  regularization := 1
  rate := 1
  rateDecay := 1
  lowest := 0
  highest := 5
  budget := some 2
  globalMean := 3
  interval := 0
  reportEvery := 1
  debug := false

/-- An engine at rest over the sample. -/
def sampleEngine (mode : Mode) : Engine Int (Descent.Slot Int) Empty :=
  Engine.make mode sampleGraph sampleVertices sampleSettings none fun _ => 1

/-- A session over the sample, at rest. -/
def restingSession (mode : Mode) :
    Session Int (Descent.Slot Int) Empty Unit Unit Unit :=
  Session.make (sampleEngine mode) none none

/-- An engine over the sample with its rows woken. -/
def wokenSample (mode : Mode) : Engine Int (Descent.Slot Int) Empty :=
  (Trainer.wakeRows.perform (sampleEngine mode)).2

theorem wakeRows_sampleEngine (mode : Mode) :
    Trainer.wakeRows.perform (sampleEngine mode) =
      (.ok (), wokenSample mode) := by
  cases mode <;> rfl

/-- A session over the sample with its rows woken, without aggregators. -/
def sampleSession (mode : Mode) :
    Session Int (Descent.Slot Int) Empty Unit Unit Unit :=
  Session.make (wokenSample mode) none none

end RatingFactors
