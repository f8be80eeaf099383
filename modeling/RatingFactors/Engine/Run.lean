import RatingFactors.Engine.Activation
import RatingFactors.Engine.Aggregator
import RatingFactors.Random.Shuffle

/-!
# Runs

A run goes on while some vertex is active and the bound on iterations is not
reached. After each synchronous round, and after as many asynchronous
activations as there are vertices, the aggregators that are due are run.

Nothing forces an arbitrary program to come to rest, so a run is given a number
of iterations after which it gives up. Learning knows a number that is never
reached; see `Training`.

## Main definitions

* `Session.make` — a session with an engine at rest.
* `Session.advance` — one iteration: a round or an activation, and the
  aggregators.
* `Session.start` — a whole run; its result is the number of totals applied so
  far.
-/

namespace RatingFactors

namespace Session

variable {α σ ω μ τ ρ : Type} [Scalar α]

/-- A session with an engine at rest and without aggregators. -/
def make (engine : Engine α σ ω) (limit seed : Option Int) :
    Session α σ ω μ τ ρ where
  engine := engine
  aggregators := []
  limit := limit
  seed := seed
  sinceDue := 0

/-- Has the run made all the iterations that it may? -/
def limitReached (s : Session α σ ω μ τ ρ) : Option Int :=
  match s.limit with
  | none => none
  | some limit => if limit ≤ s.engine.iteration then some limit else none

/-- Lets the clock go on and counts the iteration. -/
def passIteration (e : Engine α σ ω) : Engine α σ ω :=
  { e with now := e.now + e.pace e.iteration, iteration := e.iteration + 1 }

/-- One iteration: a round or an activation, and then the aggregators if it is
their turn. -/
def advance (p : Program α σ ω) : Attempt (Session α σ ω μ τ ρ) Unit := do
  match (← get).engine.mode with
  | .synchronous =>
    onEngine (Engine.round p)
    onEngine (modify passIteration)
    aggregateDue
  | .asynchronous =>
    onEngine (Engine.activateNext p)
    onEngine (modify passIteration)
    let s ← get
    if s.engine.graph.size ≤ s.sinceDue + 1 then
      set { s with sinceDue := 0 }
      aggregateDue
    else
      set { s with sinceDue := s.sinceDue + 1 }

/-- Is there nothing more to do? Reaching the bound on iterations is noted
down. -/
def isOver : Attempt (Session α σ ω μ τ ρ) Bool := do
  let s ← get
  if s.engine.activeCount = 0 then return true
  match s.limitReached with
  | none => return false
  | some limit =>
    onEngine (Engine.print s!"Достигнут лимит итераций движка: {limit}")
    return true

/-- Iterates until there is nothing more to do. The last argument is the number
of iterations after which the run gives up. -/
def iterate (p : Program α σ ω) : Nat → Attempt (Session α σ ω μ τ ρ) Unit
  | 0 => do
    if ← isOver then return ()
    throw .stillActive
  | patience + 1 => do
    if ← isOver then return ()
    advance p
    iterate p patience

/-- The session with its clock, its aggregators and its count of activations set
back. -/
def restarted (s : Session α σ ω μ τ ρ) : Session α σ ω μ τ ρ :=
  { s with
    engine := { s.engine with startedAt := s.engine.now }
    aggregators := s.aggregators.map fun a => { a with lastRun := Scalar.zero }
    sinceDue := 0 }

/-- Puts the queue into an order drawn from the seed, if the mode is
asynchronous and there is a seed. -/
def shuffleQueue : Attempt (Session α σ ω μ τ ρ) Unit := do
  let s ← get
  match s.engine.mode, s.seed with
  | .asynchronous, some seed =>
    let source ← Attempt.lift (Twister.seeded (some seed))
    let (queue, _) := (Twister.shuffle s.engine.queue).run source
    set { s with engine := { s.engine with queue := queue } }
  | _, _ => pure ()

/-- Runs the program from the vertices that are active now. The result is the
number of totals that have been applied in the life of the engine. -/
def start (p : Program α σ ω) (patience : Nat) :
    Attempt (Session α σ ω μ τ ρ) Nat := do
  modify restarted
  shuffleQueue
  iterate p patience
  return (← get).engine.updates

end Session

end RatingFactors
