import RatingFactors.Configuration.Basic
import RatingFactors.Training

/-!
# Settings from a configuration

The shared settings of a run and the options of a trainer, taken from a
configuration. Values are converted one after the other in a fixed order, so of
several bad values the first one is named; whether the settings fit together is
asked at the end.

## Main definitions

* `Settings.checked` — settings whose bounds are in order and whose reports come
  at all.
* `Settings.converted`, `Settings.ofConfiguration` — the settings of a
  configuration, before and after the question whether they fit together.
* `Settings.entries` — the entries that ask for given settings.
* `Settings.ofArguments` — the settings given by arguments, which are checked as
  they are given.
* `TrainingOptions.ofConfiguration` — the options of a trainer.
-/

namespace RatingFactors

/-- The settings, if the range of predictions is in order and the reporting
period is at least one. The last argument is the period as it is shown. -/
def Settings.checked {α : Type} [Scalar α] (s : Settings α) (period : String)
    (periodTooShort : Bool) : Except Failure (Settings α) :=
  if Scalar.less s.highest s.lowest then
    .error (.crossedBounds (Scalar.text s.lowest) (Scalar.text s.highest))
  else if periodTooShort then .error (.reportPeriod period)
  else .ok s

/-- The settings of a configuration, whether they fit together or not. -/
def Settings.converted (c : Configuration) :
    Except Failure (Settings Float) := do
  let dimension ← (c.get "latent_dim" (.whole 20)).toWhole
  let regularization ← (c.get "lambda" (.real 0.001)).toReal
  let rate ← (c.get "gamma" (.real 0.001)).toReal
  let rateDecay ← (c.get "step_dec" (.real 0.9)).toReal
  let lowest ← (c.get "min_val" (.real 1e-100)).toReal
  let highest ← (c.get "max_val" (.real 1e100)).toReal
  let budget ← (c.find "max_updates").toWhole?
  let globalMean ← (c.get "global_mean" (.real 0.0)).toReal
  let interval ← (c.get "interval" (.whole 0)).toReal
  let reportEvery ← (c.get "report_every" (.whole 2)).toWhole
  return {
    dimension, regularization, rate, rateDecay, lowest, highest, budget,
    globalMean, interval
    reportEvery, debug := (c.get "debug" (.flag false)).isTrue }

/-- The settings that a configuration asks for. -/
def Settings.ofConfiguration (c : Configuration) :
    Except Failure (Settings Float) := do
  let settings ← converted c
  settings.checked (toString settings.reportEvery) (settings.reportEvery < 1)

/-- The entries of a configuration that asks for given settings. -/
def Settings.entries (s : Settings Float) :
    List (String × Configuration.Value) := [
  ("latent_dim", .whole s.dimension), ("lambda", .real s.regularization),
  ("gamma", .real s.rate), ("step_dec", .real s.rateDecay),
  ("min_val", .real s.lowest), ("max_val", .real s.highest),
  ("max_updates", (s.budget.map .whole).getD .null),
  ("global_mean", .real s.globalMean), ("interval", .real s.interval),
  ("report_every", .whole s.reportEvery), ("debug", .flag s.debug)]

/-- The settings given by arguments. The numbers that may have a fraction are
converted first; then it is asked whether the settings fit together; whole
numbers are cut last, so a reporting period of a half is shown as it was
given. -/
def Settings.ofArguments (c : Configuration) :
    Except Failure (Settings Float) := do
  let regularization ← (c.get "lambda" (.real 0.001)).toReal
  let rate ← (c.get "gamma" (.real 0.001)).toReal
  let rateDecay ← (c.get "step_dec" (.real 0.9)).toReal
  let lowest ← (c.get "min_val" (.real 1e-100)).toReal
  let highest ← (c.get "max_val" (.real 1e100)).toReal
  let globalMean ← (c.get "global_mean" (.real 0.0)).toReal
  let interval ← (c.get "interval" (.whole 0)).toReal
  let period := c.get "report_every" (.whole 2)
  let settings : Settings Float := {
    dimension := 0, regularization, rate, rateDecay, lowest, highest,
    budget := none, globalMean
    interval, reportEvery := 0, debug := (c.get "debug" (.flag false)).isTrue }
  let settings ← settings.checked period.shown ((← period.number) < 1.0)
  let dimension ← (c.get "latent_dim" (.whole 20)).toWhole
  let budget ← (c.find "max_updates").toWhole?
  let reportEvery ← period.toWhole
  return { settings with dimension, budget, reportEvery }

/-- A folder named by a value; nothing, and what is empty, names none. -/
def folderOf (v : Configuration.Value) : Except Failure (Option String) :=
  if v.isTrue then
    match v with
    | .text path => .ok (some path)
    | _ => .error .wrongKind
  else .ok none

/-- The options of a trainer that a configuration asks for. -/
def TrainingOptions.ofConfiguration (s : Settings Float) (c : Configuration) :
    Except Failure TrainingOptions := do
  if Trainer.isEndless s (!(c.find "max_iterations").isNull) then
    throw .endlessRun
  let seed ← (c.find "seed").toWhole?
  let mode ← Mode.ofLabel (c.get "engine" (.text "synchronous")).shown
  let limit ← (c.find "max_iterations").toWhole?
  let predictions := c.find "predictions"
  let moved := (c.get "remap_target" (.flag false)).isTrue
  let checkpointFolder ← folderOf (c.find "checkpoint_dir")
  return {
    mode, limit, seed, moved, checkpointFolder
    predictions := if predictions.isTrue then some predictions.shown else none }

end RatingFactors
