import RatingFactors.Engine.Basic

/-!
# Aggregators

An aggregator looks at every edge of the graph, adds up what it sees, and closes
the total into a result. It may keep a state of its own between closings, and
closing may change the settings of the run: that is how the learning rate
decays. Nothing else in the engine is within its reach.

Aggregators run when they are asked to, or periodically: after an iteration,
when at least their interval has gone by since they last ran.

## Main definitions

* `Aggregator` — what is seen on an edge, how it is added, and how the total is
  closed.
* `Aggregator.total` — the total over all edges.
* `Session` — an engine together with its aggregators.
* `Session.aggregate` — runs one aggregator now.
-/

namespace RatingFactors

/-- What closing a total leaves: the state of the aggregator, the settings of
the run, what was noted down, and the result. -/
structure Closing (α ω μ ρ : Type) where
  state : μ
  settings : Settings α
  notes : List (Note ω)
  answer : Except Failure ρ

/-- An aggregator over edges with totals of kind `τ`, results of kind `ρ` and a
state of kind `μ`. -/
structure Aggregator (α ω μ τ ρ : Type) where
  name : String
  /-- What is seen on the edge with a number. -/
  see : Scene α → Nat → Except Failure τ
  add : τ → τ → Except Failure τ
  /-- The total of no edges, if there is one. -/
  none? : Option τ
  /-- Closes the total into a result. -/
  close : Scene α → μ → Option τ → Closing α ω μ ρ
  state : μ
  /-- How much time must pass between periodic runs; without it there are
  none. -/
  interval : Option α := none
  /-- When the aggregator last ran, counted from the start of the engine. -/
  lastRun : α

namespace Aggregator

variable {α ω μ τ ρ : Type} [Scalar α]

/-- Adds what is seen on edges to a total. -/
def totalFrom (a : Aggregator α ω μ τ ρ) (scene : Scene α) :
    List Nat → Option τ → Except Failure (Option τ)
  | [], total => .ok total
  | number :: rest, total => do
    let seen ← a.see scene number
    let next ← match total with
      | none => pure seen
      | some total => a.add total seen
    totalFrom a scene rest (some next)

/-- The total over all edges, in the order of their numbers. -/
def total (a : Aggregator α ω μ τ ρ) (scene : Scene α) :
    Except Failure (Option τ) :=
  a.totalFrom scene (List.range scene.graph.edgeCount) a.none?

omit [Scalar α] in
/-- Aggregators that see the same on all edges of graphs of one size, and add it
in the same way, have the same total. -/
theorem total_congr {ω' μ' ρ' : Type} {a : Aggregator α ω μ τ ρ}
    {a' : Aggregator α ω' μ' τ ρ'} {scene scene' : Scene α}
    (hsee : ∀ number, a'.see scene' number = a.see scene number)
    (hadd : a'.add = a.add) (hnone : a'.none? = a.none?)
    (hcount : scene'.graph.edgeCount = scene.graph.edgeCount) :
    a'.total scene' = a.total scene := by
  have hfrom : ∀ numbers total,
      a'.totalFrom scene' numbers total = a.totalFrom scene numbers total := by
    intro numbers
    induction numbers with
    | nil => exact fun _ => rfl
    | cons number rest ih =>
        intro total
        simp only [totalFrom, hsee, hadd, ih]
  rw [Aggregator.total, Aggregator.total, hcount, hnone, hfrom]

end Aggregator

/-- An engine together with its aggregators, in the order in which they were
registered. -/
structure Session (α σ ω μ τ ρ : Type) where
  engine : Engine α σ ω
  aggregators : List (Aggregator α ω μ τ ρ)
  /-- A bound on the number of iterations. -/
  limit : Option Int
  /-- A seed for the order in which asynchronous work starts. -/
  seed : Option Int
  /-- How many asynchronous activations there were since aggregators were last
  due. -/
  sinceDue : Nat

namespace Session

variable {α σ ω μ τ ρ : Type} [Scalar α]

/-- Work on the engine of a session. -/
def onEngine {β : Type} (work : Attempt (Engine α σ ω) β) :
    Attempt (Session α σ ω μ τ ρ) β := fun session =>
  let (answer, engine) := work.perform session.engine
  (answer, { session with engine := engine })

/-- The aggregator registered under a name. -/
def find? (s : Session α σ ω μ τ ρ) (name : String) :
    Option (Aggregator α ω μ τ ρ) :=
  s.aggregators.find? (·.name == name)

/-- Replaces the aggregator of the same name. -/
def replace (s : Session α σ ω μ τ ρ) (a : Aggregator α ω μ τ ρ) :
    Session α σ ω μ τ ρ :=
  { s with
    aggregators :=
      s.aggregators.map fun b => if b.name == a.name then a else b }

/-- Registers an aggregator, unless its name is taken. -/
def register (s : Session α σ ω μ τ ρ) (a : Aggregator α ω μ τ ρ) :
    Bool × Session α σ ω μ τ ρ :=
  match s.find? a.name with
  | some _ => (false, s)
  | none => (true, { s with aggregators := s.aggregators ++ [a] })

/-- Makes an aggregator run periodically. It must be registered, and the
interval must not be negative. -/
def makePeriodic (s : Session α σ ω μ τ ρ) (name : String) (interval : α) :
    Bool × Session α σ ω μ τ ρ :=
  match s.find? name with
  | none => (false, s)
  | some a =>
    if Scalar.less interval Scalar.zero then (false, s)
    else (true, s.replace { a with interval := some interval })

/-- Runs the aggregator with a name. When adding up fails nothing has changed;
closing leaves its changes even when it fails. -/
def aggregate (name : String) : Attempt (Session α σ ω μ τ ρ) ρ := do
  let s ← get
  match s.find? name with
  | none => throw (.unknownAggregator name)
  | some a =>
    let scene := s.engine.scene
    let total ← Attempt.lift (a.total scene)
    let closing := a.close scene a.state total
    let engine := { s.engine with
      settings := closing.settings
      notes := s.engine.notes ++ closing.notes.toArray }
    set { s.replace
        { a with state := closing.state, lastRun := s.engine.elapsed } with
      engine := engine }
    Attempt.lift closing.answer

/-- Has at least the interval gone by since the aggregator last ran? -/
def isDue (elapsed : α) (a : Aggregator α ω μ τ ρ) : Bool :=
  match a.interval with
  | none => false
  | some interval =>
    let gone := elapsed - a.lastRun
    Scalar.less interval gone || Scalar.same interval gone

/-- Runs the aggregators that are due. -/
def aggregateDue : Attempt (Session α σ ω μ τ ρ) Unit := do
  let s ← get
  Attempt.each (s.aggregators.map (·.name)) fun name => do
    let s ← get
    match s.find? name with
    | none => pure ()
    | some a => if isDue s.engine.elapsed a then discard (aggregate name)

end Session

end RatingFactors
