import RatingFactors.Descent
import RatingFactors.Engine.Aggregator

/-!
# The monitor

How far predictions are from known ratings. Each edge gives its squared residual
to the errors of its role; ratings to be predicted give nothing. From time to
time the sums are closed into a report: the roots of the mean squared residuals
of the ratings learned from and of those held out. After each report the
learning rate decays.

Only every `reportEvery`-th closing makes a report, beginning with the first;
the others are counted and leave everything else as it was.

## Main definitions

* `squaredResidual` — the squared residual of an edge.
* `ErrorTally` — sums of squared residuals and numbers of edges, for both roles.
* `Monitor` — the state between closings: how many there were, and the reports
  so far.
* `Monitor.close` — closes a tally.
* `Monitor.aggregator` — the aggregator that keeps a monitor.
-/

namespace RatingFactors

variable {α : Type} [Scalar α]

/-- The squared residual of the edge with a number, for the vertices as they
are. -/
def squaredResidual (scene : Scene α) (number : Nat) : Except Failure α := do
  let e := scene.edge number
  let prediction ←
    scene.settings.predict (scene.vertex e.source) (scene.vertex e.target)
  let residual := e.value - prediction
  let squared := residual * residual
  if Scalar.isInfinite squared then
    throw (.infiniteError (scene.graph.idAt e.source)
      (scene.graph.idAt e.target))
  return squared

/-- Sums of squared residuals, and how many edges they are over. -/
structure ErrorTally (α : Type) where
  train : α
  validation : α
  trainCount : Int
  validationCount : Int
deriving Repr

namespace ErrorTally

/-- The tally of no edges. -/
def none : ErrorTally α :=
  ⟨Scalar.zero, Scalar.zero, 0, 0⟩

/-- Adds another tally. If the sum of the training errors is no number the work
fails, with that sum already in place. -/
def absorb (other : ErrorTally α) : Attempt (ErrorTally α) Unit := do
  modify fun tally => { tally with train := tally.train + other.train }
  if Scalar.isNaN (← get).train then throw .nanTrainingSum
  modify fun tally => { tally with
    validation := tally.validation + other.validation
    trainCount := tally.trainCount + other.trainCount
    validationCount := tally.validationCount + other.validationCount }

/-- The sum of two tallies. -/
def add (a b : ErrorTally α) : Except Failure (ErrorTally α) :=
  match (absorb b).perform a with
  | (.ok (), sum) => .ok sum
  | (.error cause, _) => .error cause

/-- Are two tallies equal as numbers? -/
def same (a b : ErrorTally α) : Bool :=
  Scalar.same a.train b.train && Scalar.same a.validation b.validation
    && a.trainCount == b.trainCount && a.validationCount == b.validationCount

/-- How a tally is shown. -/
def describe (a : ErrorTally α) : String :=
  "ErrorAggregator(train=" ++ Scalar.text a.train
    ++ "/" ++ toString a.trainCount
    ++ ", validation=" ++ Scalar.text a.validation
    ++ "/" ++ toString a.validationCount ++ ")"

/-- The tally of the edge with a number. -/
def ofEdge (scene : Scene α) (number : Nat) : Except Failure (ErrorTally α) :=
  match (scene.edge number).role with
  | .train => do
    let squared ← squaredResidual scene number
    if Scalar.isNaN squared then throw .nanTrainingEdge
    return { none with train := squared, trainCount := 1 }
  | .validate => do
    let squared ← squaredResidual scene number
    return { none with validation := squared, validationCount := 1 }
  | .predict => .ok none
  | .other label => .error (.unknownRole label)

end ErrorTally

/-- What a report says. -/
structure Report (α : Type) where
  /-- The time since the engine was started. -/
  elapsed : α
  trainError : α
  validationError : Option α
  /-- The learning rate from here on. -/
  rate : α
deriving Repr

/-- The state between closings. -/
structure Monitor (α : Type) where
  /-- Every how many closings there is a report. -/
  reportEvery : Int
  /-- Are reports printed? -/
  verbose : Bool
  /-- How many closings there were. -/
  calls : Nat
  /-- The reports made, in order. -/
  history : List (Report α)
deriving Repr

namespace Monitor

/-- A monitor that has closed nothing yet; its period must be at least one. -/
def make (reportEvery : Int) (verbose : Bool) : Except Failure (Monitor α) :=
  if reportEvery < 1 then .error (.reportPeriod (toString reportEvery))
  else .ok { reportEvery, verbose, calls := 0, history := [] }

/-- Does the closing after those already counted make a report? -/
def reportsNext (m : Monitor α) : Bool :=
  (m.calls : Int) % m.reportEvery == 0

/-- The root of a mean. -/
def rootMean (sum : α) (count : Int) : Except Failure α :=
  let mean := sum / Scalar.ofInt count
  if Scalar.less mean Scalar.zero then .error .negativeRoot
  else .ok (Scalar.root mean)

/-- The errors that a report gives: that of training must exist and be a number,
that of validation is left out when no edge was held out. -/
def errors (tally : ErrorTally α) : Except Failure (α × Option α) := do
  if tally.trainCount ≤ 0 then throw .noTrainingErrors
  let train ← rootMean tally.train tally.trainCount
  if Scalar.isNaN train then throw .nanTrainingError
  if tally.validationCount ≤ 0 then return (train, none)
  return (train, some (← rootMean tally.validation tally.validationCount))

/-- The line that is printed for a report. -/
def line (elapsed train : α) (validation : Option α) : String :=
  "\t".intercalate <|
    ([some elapsed, some train, validation].filterMap id).map (Scalar.fixed 6)

/-- Closes a tally. Each closing is counted. One that makes a report decays the
learning rate and adds the report; one that is skipped or fails changes nothing
else. -/
def close {ω : Type} (scene : Scene α) (m : Monitor α)
    (tally : Option (ErrorTally α)) :
    Closing α ω (Monitor α) (Option (Report α)) :=
  let counted := { m with calls := m.calls + 1 }
  if m.reportsNext then
    match errors (tally.getD ErrorTally.none) with
    | .error cause => ⟨counted, scene.settings, [], .error cause⟩
    | .ok (train, validation) =>
      let settings := scene.settings.decayed
      let report : Report α := ⟨scene.elapsed, train, validation, settings.rate⟩
      ⟨{ counted with history := m.history ++ [report] }, settings,
        if m.verbose then [.line (line scene.elapsed train validation)] else [],
        .ok (some report)⟩
  else ⟨counted, scene.settings, [], .ok none⟩

/-- The aggregator that adds up errors and keeps a monitor. -/
def aggregator {ω : Type} (name : String) (m : Monitor α) :
    Aggregator α ω (Monitor α) (ErrorTally α) (Option (Report α)) where
  name := name
  see := ErrorTally.ofEdge
  add := ErrorTally.add
  none? := some ErrorTally.none
  close := close
  state := m
  lastRun := Scalar.zero

end Monitor

end RatingFactors
