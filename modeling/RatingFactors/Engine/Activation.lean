import RatingFactors.Engine.Basic

/-!
# Activations

How active vertices run their programs. In a synchronous round all of them go
through each phase before any goes on to the next: messages are taken in,
contributions gathered, totals applied and signals scattered, each time by
increasing place. Signals sent during a round wait for the next. An asynchronous
activation takes the vertex that has waited longest through all four phases.

## Main definitions

* `Engine.gatherAt` — the total of what the edges at a vertex contribute.
* `Engine.round` — one synchronous round.
* `Engine.activateNext` — one asynchronous activation.
-/

namespace RatingFactors

namespace Engine

variable {α σ ω : Type} [Scalar α]

/-- Lets a vertex take in its message, if one waited. -/
def initAt (p : Program α σ ω) (place : Nat) (waiting : Inbox α) :
    Attempt (Engine α σ ω) Unit := do
  match waiting.message? with
  | none => pure ()
  | some message =>
    let e ← get
    heed place (p.init e.scene place (e.slot p place) message)

/-- Adds the contributions of edges to a total and delivers the messages that
they ask for. -/
def gatherOver (p : Program α σ ω) (place : Nat) :
    List Nat → Step α → Attempt (Engine α σ ω) (Step α)
  | [], total => return total
  | number :: rest, total => do
    let e ← get
    let contribution ←
      heed place (p.gather e.scene place (e.slot p place) number)
    let total ← Attempt.lift (total.add contribution.step)
    match contribution.outgoing with
    | none => pure ()
    | some message => signal (.id message.target) (some message.payload)
    gatherOver p place rest total

/-- The total of what the edges at a vertex contribute. -/
def gatherAt (p : Program α σ ω) (place : Nat) :
    Attempt (Engine α σ ω) (Step α) := do
  let e ← get
  let direction ← Attempt.lift (p.gatherEdges e.scene place)
  gatherOver p place (e.graph.incident place direction) Step.empty

/-- Lets a vertex use its total, and counts the update. -/
def applyAt (p : Program α σ ω) (place : Nat) (total : Step α) :
    Attempt (Engine α σ ω) Unit := do
  let e ← get
  heed place (p.apply e.scene place (e.slot p place) total)
  modify fun e => { e with updates := e.updates + 1 }

/-- Lets a vertex pass something on along its edges. -/
def scatterAt (p : Program α σ ω) (place : Nat) :
    Attempt (Engine α σ ω) Unit := do
  let e ← get
  let direction ← Attempt.lift (p.scatterEdges e.scene place)
  Attempt.each (e.graph.incident place direction) fun number => do
    let e ← get
    heed place (p.scatter e.scene place (e.slot p place) number)

/-- One synchronous round: all active vertices go through each phase
together. -/
def round (p : Program α σ ω) : Attempt (Engine α σ ω) Unit := do
  let before ← get
  let order := before.active
  set { before with inboxes := Array.replicate before.inboxes.size .idle }
  Attempt.each order fun place => initAt p place (before.inbox place)
  let totals ← Attempt.collect order (gatherAt p)
  Attempt.each (order.zip totals) fun (place, total) => applyAt p place total
  Attempt.each order (scatterAt p)

/-- One asynchronous activation: the vertex that has waited longest goes through
all phases. -/
def activateNext (p : Program α σ ω) : Attempt (Engine α σ ω) Unit := do
  let e ← get
  match e.queue with
  | [] => throw .emptyQueue
  | place :: rest =>
    let waiting := e.inbox place
    set { e with queue := rest, inboxes := e.inboxes.setIfInBounds place .idle }
    initAt p place waiting
    let total ← gatherAt p place
    applyAt p place total
    scatterAt p place

end Engine

end RatingFactors
