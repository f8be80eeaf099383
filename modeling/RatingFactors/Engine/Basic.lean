import RatingFactors.Attempt
import RatingFactors.Engine.Inbox
import RatingFactors.Program

/-!
# The engine

The engine runs a vertex program over a graph until no vertex is active. This
module holds its state, the delivery of signals, and the carrying out of a
program's actions; rounds and single activations are built on it in
`Engine.Activation`.

Work on the engine is an `Attempt`: it can fail, and whether it does or not it
leaves the state that it has reached. Nothing is rolled back.

## Main definitions

* `Engine` — the state: the graph and what is learned about its vertices, the
  inboxes, the queue of the asynchronous order, the clock, and what has been
  noted down.
* `Engine.signal` — wakes a vertex.
* `Engine.heed` — carries out the actions of a reply and takes its result.
* `Engine.sumVertices` — a sum over the vertices.
-/

namespace RatingFactors

/-- In which order active vertices are taken. -/
inductive Mode
  /-- All active vertices together, phase by phase. -/
  | synchronous
  /-- One after the other, in the order in which they were woken. -/
  | asynchronous
deriving DecidableEq, Repr

namespace Mode

/-- The name of a mode. -/
def label : Mode → String
  | synchronous => "synchronous"
  | asynchronous => "asynchronous"

/-- The mode with a given name. -/
def ofLabel (name : String) : Except Failure Mode :=
  if name = synchronous.label then .ok synchronous
  else if name = asynchronous.label then .ok asynchronous
  else .error (.unknownEngine name)

end Mode

/-- The state of an engine whose vertex programs keep a `σ` for each vertex and
note down entries of kind `ω`. -/
structure Engine (α σ ω : Type) where
  mode : Mode
  graph : Graph α
  /-- What is known about the vertices. -/
  vertices : Array (Vertex α)
  settings : Settings α
  /-- The slots of the vertex programs. -/
  slots : Array σ
  /-- What waits for the vertices. -/
  inboxes : Array (Inbox α)
  /-- The active vertices in the order in which they were woken; only kept when
  the mode is asynchronous. -/
  queue : List Nat
  /-- How many rounds or single activations are over. -/
  iteration : Nat
  /-- How many totals have been applied. -/
  updates : Nat
  /-- The time now. -/
  now : α
  /-- The time when the engine was last started. -/
  startedAt : α
  /-- How long each iteration takes. -/
  pace : Nat → α
  /-- What has been noted down, in order. -/
  notes : Array (Note ω)

namespace Engine

variable {α σ ω : Type} [Scalar α]

/-- An engine at rest. -/
def make (mode : Mode) (graph : Graph α) (vertices : Array (Vertex α))
    (settings : Settings α) (fresh : σ) (pace : Nat → α) : Engine α σ ω where
  mode := mode
  graph := graph
  vertices := vertices
  settings := settings
  slots := Array.replicate graph.size fresh
  inboxes := Array.replicate graph.size .idle
  queue := []
  iteration := 0
  updates := 0
  now := Scalar.zero
  startedAt := Scalar.zero
  pace := pace
  notes := #[]

/-- The time since the engine was started. -/
def elapsed (e : Engine α σ ω) : α :=
  e.now - e.startedAt

/-- What programs can see. -/
def scene (e : Engine α σ ω) : Scene α where
  graph := e.graph
  vertices := e.vertices
  settings := e.settings
  iteration := e.iteration
  elapsed := e.elapsed

/-- What waits for a vertex. -/
def inbox (e : Engine α σ ω) (place : Nat) : Inbox α :=
  e.inboxes.getD place .idle

/-- The active vertices, by increasing place. -/
def active (e : Engine α σ ω) : List Nat :=
  (List.range e.inboxes.size).filter fun place => (e.inbox place).isActive

/-- How many vertices are active. -/
def activeCount (e : Engine α σ ω) : Nat :=
  e.active.length

/-- The place that an address means. -/
def resolve (e : Engine α σ ω) : Address → Except Failure Nat
  | .place place =>
    if place < e.graph.size then .ok place else .error (.unknownVertex place)
  | .id id => e.graph.placeOf id

/-- Puts a signal into the inbox of a vertex. A vertex that was idle takes its
place at the end of the queue. -/
def signal (target : Address) (message : Option (Step α)) :
    Attempt (Engine α σ ω) Unit := do
  let e ← get
  let place ← Attempt.lift (e.resolve target)
  let waiting := e.inbox place
  let filled ← Attempt.lift (waiting.receive message)
  let queue :=
    if e.mode == .asynchronous && !waiting.isActive then e.queue ++ [place]
    else e.queue
  set { e with inboxes := e.inboxes.setIfInBounds place filled, queue := queue }

/-- Carries out one action of the vertex at a place. -/
def carryOut (place : Nat) : Action α σ ω → Attempt (Engine α σ ω) Unit
  | .signal target message => signal target message
  | .store vertex =>
    modify fun e => { e with vertices := e.vertices.setIfInBounds place vertex }
  | .keep slot =>
    modify fun e => { e with slots := e.slots.setIfInBounds place slot }
  | .note content => modify fun e => { e with notes := e.notes.push content }

/-- Carries out the actions of a reply in order and takes its result. -/
def heed {β : Type} (place : Nat) (reply : Reply α σ ω β) :
    Attempt (Engine α σ ω) β := do
  Attempt.each reply.actions (carryOut place)
  Attempt.lift reply.answer

/-- The slot of the vertex at a place. -/
def slot (p : Program α σ ω) (e : Engine α σ ω) (place : Nat) : σ :=
  e.slots.getD place p.fresh

/-- What a function gives for the vertices, in the order of their places, added
up from the left. Vertices for which it gives nothing are passed over; if it
never gives anything there is no sum. -/
def sumVertices {β : Type} (e : Engine α σ ω) (value : Scene α → Nat → Option β)
    (add : β → β → β) : Option β :=
  (List.range e.graph.size).foldl
    (fun sum place =>
      match sum, value e.scene place with
      | sum, none => sum
      | none, some x => some x
      | some sum, some x => some (add sum x))
    none

/-- Prints a line. -/
def print (text : String) : Attempt (Engine α σ ω) Unit :=
  modify fun e => { e with notes := e.notes.push (.line text) }

end Engine

end RatingFactors
