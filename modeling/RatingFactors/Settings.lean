import RatingFactors.Vertex

/-!
# Settings of a run

The numbers that one run shares: the size of the latent vectors, the weights of
learning, the range of predictions, the budget of updates, the mean rating, and
the rhythm of reports. Only the learning rate changes while a run is under way:
each report multiplies it by the decay.
-/

namespace RatingFactors

/-- What all phases of one run share. -/
structure Settings (α : Type) where
  /-- The number of latent coordinates. -/
  dimension : Int
  /-- The weight that pulls latent vectors towards zero. -/
  regularization : α
  /-- The learning rate. -/
  rate : α
  /-- What the learning rate is multiplied by after each report. -/
  rateDecay : α
  /-- The least prediction. -/
  lowest : α
  /-- The greatest prediction. -/
  highest : α
  /-- How many updates a vertex may have before it is no longer activated. -/
  budget : Option Int
  /-- The mean of the ratings learned from. -/
  globalMean : α
  /-- The time between reports. -/
  interval : α
  /-- Every how many aggregations a report is made. -/
  reportEvery : Int
  /-- Are steps printed as they are computed? -/
  debug : Bool
deriving Repr

namespace Settings

variable {α : Type} [Scalar α]

/-- May the vertex still be activated? -/
def withinBudget (s : Settings α) (v : Vertex α) : Bool :=
  match s.budget with
  | none => true
  | some limit => v.updates < limit

/-- A prediction moved into the allowed range. -/
def clamp (s : Settings α) (x : α) : α :=
  Scalar.clamp s.lowest s.highest x

/-- The settings after a report. -/
def decayed (s : Settings α) : Settings α :=
  { s with rate := s.rate * s.rateDecay }

end Settings

end RatingFactors
