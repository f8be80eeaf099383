import RatingFactors.Failure
import RatingFactors.Scalar

/-!
# Steps

A step moves one vertex of the model: its latent vector by `delta` and its bias
by `bias`. Steps gathered over the edges of a vertex, and steps that arrive as
messages, are added up.

The empty step, with no coordinates, stands for "nothing to add yet". It is
neutral, so the sum of a list of steps is the sum of those that are not empty,
and these must agree in length.

## Main definitions

* `Step.of` — the constructor that drops the bias of a step without coordinates.
* `Step.add` — addition, refused only for two non-empty steps of different
  lengths.
* `Step.zeros` — the step that activates a vertex and moves nothing.
-/

namespace RatingFactors

/-- A move of one vertex: of its latent vector and of its bias. -/
structure Step (α : Type) where
  delta : List α
  bias : α
deriving DecidableEq, Repr

namespace Step

variable {α : Type} [Scalar α]

/-- A step with the given coordinates. Without coordinates there is no bias
either. -/
def of (delta : List α) (bias : α) : Step α :=
  match delta with
  | [] => ⟨[], Scalar.zero⟩
  | x :: xs => ⟨x :: xs, bias⟩

/-- The step without coordinates. -/
def empty : Step α :=
  ⟨[], Scalar.zero⟩

/-- Has the step no coordinates? -/
def isEmpty (s : Step α) : Bool :=
  s.delta.isEmpty

/-- The step that moves nothing, with a set number of coordinates. -/
def zeros (dimension : Int) : Except Failure (Step α) :=
  if dimension < 0 then .error .negativeDimension
  else .ok (of (List.replicate dimension.toNat Scalar.zero) Scalar.zero)

/-- The sum of two steps. An empty one adds nothing; others must agree in
length. -/
def add (s t : Step α) : Except Failure (Step α) :=
  if s.isEmpty then .ok t
  else if t.isEmpty then .ok s
  else if s.delta.length = t.delta.length then
    .ok ⟨List.zipWith (· + ·) s.delta t.delta, s.bias + t.bias⟩
  else .error (.stepLengths s.delta.length t.delta.length)

/-- Are two steps equal as numbers? -/
def same (s t : Step α) : Bool :=
  s.delta.length == t.delta.length
    && (List.zipWith Scalar.same s.delta t.delta).all id
    && Scalar.same s.bias t.bias

/-- The text of a list of numbers. -/
def listText (xs : List α) : String :=
  "[" ++ ", ".intercalate (xs.map Scalar.text) ++ "]"

/-- How a step is shown. -/
def describe (s : Step α) : String :=
  if s.isEmpty then "GradientAccumulator(empty)"
  else "GradientAccumulator(delta=" ++ listText s.delta ++ ", bias_delta="
    ++ Scalar.text s.bias ++ ")"

/-- The empty step is neutral on the left. -/
theorem empty_add (s : Step α) : (empty : Step α).add s = .ok s := rfl

/-- Adding a step without coordinates on the right changes nothing. -/
theorem add_empty {s t : Step α} (hs : s.isEmpty = false)
    (ht : t.isEmpty = true) : s.add t = .ok s := by
  simp [add, hs, ht]

end Step

/-- A step addressed to a vertex by its identifier. -/
structure Message (α : Type) where
  target : Int
  payload : Step α
deriving Repr

/-- What one edge contributes: a step for the vertex at hand, and possibly a
message for the vertex at the other end. -/
structure Contribution (α : Type) where
  step : Step α
  outgoing : Option (Message α) := none
deriving Repr

namespace Message

variable {α : Type} [Scalar α]

/-- How a message is shown. -/
def describe (m : Message α) : String :=
  "OutgoingMessage(target_id=" ++ toString m.target ++ ", payload=" ++
    m.payload.describe ++ ")"

end Message

namespace Contribution

variable {α : Type} [Scalar α]

/-- The contribution of an edge that has nothing to say. -/
def nothing : Contribution α :=
  ⟨Step.empty, none⟩

/-- How a contribution is shown. -/
def describe (c : Contribution α) : String :=
  let outgoing := match c.outgoing with
    | none => "None"
    | some m => m.describe
  "GatherResult(accumulator=" ++ c.step.describe ++
    ", outgoing=" ++ outgoing ++ ")"

end Contribution

end RatingFactors
