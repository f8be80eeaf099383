import RatingFactors.Graph.Basic

/-!
# Vertex programs

A vertex program says what a vertex does when it is active: take in the message
that woke it, gather something over its edges, apply the total, and scatter
along its edges. It never touches the engine. Each phase is a function of what
can be seen (`Scene`) and of the vertex's own slot of state, and answers with a
list of actions and a result. The engine carries the actions out in order, and
stops at the first that fails.

So whatever a program does, it does by signalling vertices, by storing its own
vertex or its own slot, and by noting something down. That is what makes
statements about every program possible.

## Main definitions

* `Scene` — what a phase can see.
* `Action`, `Reply` — what a phase can do, and what it answers.
* `Program` — the six functions that make up a vertex program.
-/

namespace RatingFactors

/-- What a phase of a vertex program can see. -/
structure Scene (α : Type) where
  graph : Graph α
  vertices : Array (Vertex α)
  settings : Settings α
  /-- How many rounds or single activations are over. -/
  iteration : Nat
  /-- The time since the engine was started. -/
  elapsed : α

namespace Scene

variable {α : Type} [Scalar α]

/-- What is known about the vertex at a place. -/
def vertex (scene : Scene α) (place : Nat) : Vertex α :=
  scene.vertices.getD place ⟨[], Scalar.zero, 0⟩

/-- The edge with a number. -/
def edge (scene : Scene α) (number : Nat) : Edge α :=
  scene.graph.edges.getD number ⟨0, 0, Scalar.zero, .predict⟩

end Scene

/-- A vertex that is signalled, by its place or by its identifier. -/
inductive Address
  | place (place : Nat)
  | id (id : Int)
deriving DecidableEq, Repr

/-- Something noted down: a printed line, or an entry of a program's own
kind. -/
inductive Note (ω : Type)
  | line (text : String)
  | entry (content : ω)
deriving Repr

/-- The printed line of a note. -/
def Note.line? {ω : Type} : Note ω → Option String
  | line text => some text
  | entry _ => none

/-- The entry of a note. -/
def Note.entry? {ω : Type} : Note ω → Option ω
  | line _ => none
  | entry content => some content

/-- What a phase can do. -/
inductive Action (α σ ω : Type)
  /-- Wake a vertex, possibly with a step as message. -/
  | signal (target : Address) (message : Option (Step α))
  /-- Replace what is known about the own vertex. -/
  | store (vertex : Vertex α)
  /-- Replace the own slot. -/
  | keep (slot : σ)
  /-- Note something down. -/
  | note (content : Note ω)

/-- What a phase answers: actions to carry out in order, then a result or a
failure. -/
structure Reply (α σ ω β : Type) where
  actions : List (Action α σ ω)
  answer : Except Failure β

namespace Reply

variable {α σ ω β : Type}

/-- Does nothing and gives a result. -/
def done (result : β) : Reply α σ ω β :=
  ⟨[], .ok result⟩

/-- Does nothing and fails. -/
def fail (cause : Failure) : Reply α σ ω β :=
  ⟨[], .error cause⟩

/-- Carries out actions and is content. -/
def act (actions : List (Action α σ ω)) : Reply α σ ω Unit :=
  ⟨actions, .ok ()⟩

/-- A computation that needs no action. -/
def ofExcept : Except Failure (Reply α σ ω β) → Reply α σ ω β
  | .ok reply => reply
  | .error cause => fail cause

end Reply

/-- What a vertex does when it is active. Each function is given the scene and
the place of the vertex; the phases are given the vertex's slot as well. -/
structure Program (α σ ω : Type) where
  /-- The slot of a vertex that has not been active yet. -/
  fresh : σ
  /-- The edges to gather over. -/
  gatherEdges : Scene α → Nat → Except Failure Direction
  /-- The edges to scatter along. -/
  scatterEdges : Scene α → Nat → Except Failure Direction
  /-- Takes in the message that woke the vertex. -/
  init : Scene α → Nat → σ → Step α → Reply α σ ω Unit
  /-- What the edge with a number contributes. -/
  gather : Scene α → Nat → σ → Nat → Reply α σ ω (Contribution α)
  /-- Uses the total of the contributions. -/
  apply : Scene α → Nat → σ → Step α → Reply α σ ω Unit
  /-- Passes something on along the edge with a number. -/
  scatter : Scene α → Nat → σ → Nat → Reply α σ ω Unit

namespace Program

/-- A program that gathers and scatters over all edges and ignores messages, and
whose other phases are left out; `name` is who is to blame for that. -/
def blank {α σ ω : Type} (fresh : σ) (name : String) : Program α σ ω where
  fresh := fresh
  gatherEdges _ _ := .ok .both
  scatterEdges _ _ := .ok .both
  init _ _ _ _ := .done ()
  gather _ _ _ _ := .fail (.phaseMissing "gather" name)
  apply _ _ _ _ := .fail (.phaseMissing "apply" name)
  scatter _ _ _ _ := .fail (.phaseMissing "scatter" name)

end Program

end RatingFactors
