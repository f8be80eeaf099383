import RatingFactors.Program

/-!
# Biased gradient descent

The vertex program that learns. The rating of a row by a column is predicted as

  the global mean + the bias of the row + the bias of the column + the product
  of their vectors,

moved into the range of ratings. An active row goes over its training edges;
each residual gives a step for the row itself and one for the column, which is
sent to it as a message. An active column does nothing but apply the steps it
was sent. Then each wakes its neighbours along training edges. A vertex whose
budget is used up is neither woken nor sent anything.

Reading and changing are kept apart: gathering only reads, and a vertex changes
only when it applies.

## Main definitions

* `Settings.predict` — the predicted rating of two vertices.
* `Descent.program` — the vertex program; the slot of a column holds the step it
  was sent.
* `Descent.wake` — the first activation of a row.
-/

namespace RatingFactors

variable {α : Type} [Scalar α]

/-- The predicted rating of two vertices. Their vectors must agree in length. -/
def Settings.predict (s : Settings α) (v w : Vertex α) : Except Failure α :=
  if v.latent.length = w.latent.length then
    .ok (s.clamp
      (s.globalMean + v.bias + w.bias + Scalar.dot v.latent w.latent))
  else .error .vectorLengths

namespace Descent

variable {ω : Type}

/-- A slot holds the step that was sent to a column and is not yet applied. -/
abbrev Slot (α : Type) := Option (Step α)

/-- The coordinates of a gradient step: against the residual times the other
vector, and towards zero by the regularization. -/
def stepCoordinates (s : Settings α) (residual : α) (own other : List α) :
    List α :=
  List.zipWith (fun x y => -s.rate * (residual * y - s.regularization * x))
    own other

/-- The bias of a gradient step. Its regularization is taken of the step itself,
which is still zero. -/
def stepBias (s : Settings α) (residual : α) : α :=
  -s.rate * (residual - s.regularization * Scalar.zero)

/-- The gradient step of a vertex for a residual on an edge to another. -/
def gradientStep (s : Settings α) (residual : α) (own other : Vertex α) :
    Step α :=
  Step.of (stepCoordinates s residual own.latent other.latent)
    (stepBias s residual)

/-- The line that is printed for a residual when debugging. -/
def residualLine (g : Graph α) (e : Edge α) (residual : α) : String :=
  "ребро " ++ toString (g.idAt e.source) ++ ":" ++ toString (g.idAt e.target)
    ++ " err: " ++ Scalar.text residual
    ++ " se: " ++ Scalar.text (residual * residual)

/-- What a training edge contributes to the row at its source. -/
def contribution (scene : Scene α) (place number : Nat) :
    Except Failure (Contribution α × α) := do
  let e := scene.edge number
  let other := Graph.otherEnd e place
  let own := scene.vertex place
  let opposite := scene.vertex other
  let prediction ← scene.settings.predict own opposite
  let residual := prediction - e.value
  if Scalar.isNaN residual then
    throw (.nanResidual (scene.graph.idAt e.source) (scene.graph.idAt e.target))
  let outgoing :=
    if scene.settings.withinBudget opposite then
      some ⟨scene.graph.idAt other,
        gradientStep scene.settings residual opposite own⟩
    else none
  return (⟨gradientStep scene.settings residual own opposite, outgoing⟩,
    residual)

/-- What an edge contributes to an active vertex: nothing at a column, and
nothing unless it is a training edge. -/
def gather (scene : Scene α) (place : Nat) (_ : Slot α) (number : Nat) :
    Reply α (Slot α) ω (Contribution α) :=
  if 0 < scene.graph.inDegree place then .done .nothing
  else
    let e := scene.edge number
    match e.role with
    | .validate | .predict => .done .nothing
    | .other label => .fail (.unknownRole label)
    | .train =>
      match contribution scene place number with
      | .error cause => .fail cause
      | .ok (result, residual) =>
        ⟨if scene.settings.debug then
            [.note (.line (residualLine scene.graph e residual))]
          else [],
          .ok result⟩

/-- A column keeps the message that woke it; a row is not sent steps. -/
def init (scene : Scene α) (place : Nat) (_ : Slot α) (message : Step α) :
    Reply α (Slot α) ω Unit :=
  if 0 < scene.graph.inDegree place then .act [.keep (some message)]
  else .done ()

/-- The vertex after it has applied what it gathered or was sent. A gathered
step may only come to a row, and a sent one only to a column. -/
def applied (scene : Scene α) (place : Nat) (sent : Slot α) (total : Step α) :
    Except Failure (Vertex α) :=
  let v := scene.vertex place
  if !total.isEmpty then
    if scene.graph.inDegree place ≠ 0 then
      .error (.gatherAtColumn (scene.graph.idAt place))
    else (v.move total).map Vertex.counted
  else match sent with
    | none => .ok v.counted
    | some step =>
      if step.isEmpty then .ok v.counted
      else if scene.graph.outDegree place ≠ 0 then
        .error (.messageAtRow (scene.graph.idAt place))
      else (v.move step).map Vertex.counted

/-- A vertex applies its total or the step it was sent, forgets the latter, and
counts. -/
def apply (scene : Scene α) (place : Nat) (sent : Slot α) (total : Step α) :
    Reply α (Slot α) ω Unit :=
  match applied scene place sent total with
  | .error cause => .fail cause
  | .ok vertex => .act [.store vertex, .keep none]

/-- Wakes a vertex with a step that moves nothing, if its budget allows it. -/
def rouse (scene : Scene α) (place : Nat) : Reply α (Slot α) ω Unit :=
  if scene.settings.withinBudget (scene.vertex place) then
    match Step.zeros scene.settings.dimension with
    | .error cause => .fail cause
    | .ok step => .act [.signal (.place place) (some step)]
  else .done ()

/-- Along a training edge the vertex at the other end is woken. -/
def scatter (scene : Scene α) (place : Nat) (_ : Slot α) (number : Nat) :
    Reply α (Slot α) ω Unit :=
  let e := scene.edge number
  match e.role with
  | .validate | .predict => .done ()
  | .other label => .fail (.unknownRole label)
  | .train => rouse scene (Graph.otherEnd e place)

/-- The first activation: every vertex with an edge that leaves it is woken. -/
def wake (scene : Scene α) (place : Nat) : Reply α (Slot α) ω Unit :=
  if 0 < scene.graph.outDegree place then rouse scene place else .done ()

/-- The vertex program of biased gradient descent. -/
def program : Program α (Slot α) ω where
  fresh := none
  gatherEdges _ _ := .ok .both
  scatterEdges _ _ := .ok .both
  init := init
  gather := gather
  apply := apply
  scatter := scatter

end Descent

end RatingFactors
