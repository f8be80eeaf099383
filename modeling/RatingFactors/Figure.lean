import RatingFactors.Monitor

/-!
# The figure of a run

What a figure of the reports shows: the errors of training and validation over
the number of the report, and the learning rate on a second pair of axes over
the same numbers. Without reports the figure says so.

Only the content is described: titles, labels, curves with their styles, and the
legend.
-/

namespace RatingFactors

namespace Figure

/-- A curve: its name, its points, and how it is drawn. -/
structure Curve (α : Type) where
  label : String
  xs : List α
  ys : List α
  dashed : Bool
  /-- The mark at each point, if points are marked. -/
  mark : Option Char
deriving Repr

/-- One pair of axes. -/
structure Axes (α : Type) where
  xLabel : String := ""
  yLabel : String := ""
  title : String := ""
  texts : List String := []
  curves : List (Curve α) := []
  legend : Option (List String) := none
deriving Repr

/-- The numbers that a figure takes from a report; any of them may be
missing. -/
structure Point (α : Type) where
  trainError : Option α
  validationError : Option α
  rate : Option α
deriving Repr

/-- The numbers of a report. -/
def Point.ofReport {α : Type} (r : Report α) : Point α :=
  ⟨some r.trainError, r.validationError, some r.rate⟩

variable {α : Type} [Scalar α]

/-- The numbers that every report must have. -/
def required (numbers : List (Option α)) : Except Failure (List α) :=
  numbers.mapM fun
    | some x => .ok x
    | none => .error .incompleteReport

/-- The title of a figure that is given none. -/
def usualTitle : String := "Bias-SGD convergence"

/-- The axes of a figure of reports. An empty title counts as none. -/
def ofPoints (points : List (Point α)) (title : Option String) :
    Except Failure (List (Axes α)) := do
  let title := match title with
    | none | some "" => usualTitle
    | some given => given
  if points.isEmpty then
    return [{ title, texts := ["No reports"] }]
  let numbers : List α :=
    (List.range points.length).map fun (n : Nat) => Scalar.ofInt (n + 1)
  let train ← required (points.map (·.trainError))
  let rates ← required (points.map (·.rate))
  let heldOut :=
    (numbers.zip points).filterMap fun (n, p) => p.validationError.map (n, ·)
  let trainCurve : Curve α := ⟨"train RMSE", numbers, train, false, some 'o'⟩
  let heldOutCurve : Curve α :=
    ⟨"validation RMSE", heldOut.map (·.1), heldOut.map (·.2), false, some 's'⟩
  let rateCurve : Curve α := ⟨"gamma", numbers, rates, true, none⟩
  let errors :=
    if heldOut.isEmpty then [trainCurve] else [trainCurve, heldOutCurve]
  return [
    { xLabel := "Report", yLabel := "RMSE", title, curves := errors
      legend := some ((errors ++ [rateCurve]).map (·.label)) },
    { yLabel := "gamma", curves := [rateCurve] }]

/-- The line that is printed when a figure is saved. -/
def savedLine (path : String) : String :=
  s!"График сохранён: {path}"

end Figure

end RatingFactors
