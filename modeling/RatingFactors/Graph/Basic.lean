import RatingFactors.Graph.Incidence
import RatingFactors.Graph.Places
import RatingFactors.Settings

/-!
# The graph of ratings

Rows and columns of the rating matrix are vertices, ratings are edges from a row
to a column. The graph is fixed once it is built; what is learned about its
vertices is kept beside it, in an array of `Vertex` in the same order.

Nothing forbids an identifier that is a row of one rating and a column of
another. Whether a graph is bipartite is asked when it is built from a table.

## Main definitions

* `Graph.ofColumns` — a graph from the four columns of a list of ratings.
* `Graph.placeOf` — the place of a vertex with a given identifier.
* `Graph.incident` — the edges at a vertex in a direction; those that enter come
  first.
* `Graph.otherEnd` — the vertex at the other end of an edge.
* `Graph.startingVertices` — the vertices as they are before any learning.
-/

namespace RatingFactors

/-- Ratings as edges between numbered vertices, with the edges at each
vertex. -/
structure Graph (α : Type) where
  /-- The identifiers of the vertices, increasing. -/
  ids : Array Int64
  edges : Array (Edge α)
  /-- For each vertex the edges that enter it. -/
  incoming : Array (List Nat)
  /-- For each vertex the edges that leave it. -/
  outgoing : Array (List Nat)
  /-- The number of latent coordinates that new vertices get. -/
  dimension : Int

/-- Which edges at a vertex are meant. -/
inductive Direction
  | incoming
  | outgoing
  | both
  | neither
deriving DecidableEq, Repr

namespace Direction

/-- The name of a direction. -/
def label : Direction → String
  | incoming => "in"
  | outgoing => "out"
  | both => "all"
  | neither => "none"

/-- The direction with a given name. -/
def ofLabel (name : String) : Except Failure Direction :=
  match [incoming, outgoing, both, neither].find? (·.label == name) with
  | some direction => .ok direction
  | none => .error (.unknownDirection name)

end Direction

namespace Graph

variable {α : Type}

/-- The number of vertices. -/
def size (g : Graph α) : Nat :=
  g.ids.size

/-- The number of edges. -/
def edgeCount (g : Graph α) : Nat :=
  g.edges.size

/-- The graph of the ratings given by four columns, which must agree in
length. -/
def ofColumns (sources targets : List Int64) (values : List α)
    (roles : List Role) (dimension : Int) : Except Failure (Graph α) :=
  if sources.length = targets.length && targets.length = values.length
      && values.length = roles.length then
    let ids := places (sources ++ targets)
    let place (id : Int64) : Nat := (placeOf? ids id.toInt).getD 0
    let starts := sources.map place
    let ends := targets.map place
    let ratings := (starts.zip ends).zip (values.zip roles)
    .ok {
      ids
      edges := (ratings.map fun ((source, target), (value, role)) =>
        { source, target, value, role }).toArray
      incoming := incidence ids.size ends
      outgoing := incidence ids.size starts
      dimension }
  else .error .columnLengths

/-- The identifier of a vertex. -/
def idAt (g : Graph α) (place : Nat) : Int :=
  (g.ids.getD place 0).toInt

/-- The place of the vertex with an identifier. -/
def placeOf (g : Graph α) (id : Int) : Except Failure Nat :=
  match placeOf? g.ids id with
  | some place => .ok place
  | none => .error (.unknownVertex id)

/-- The edges that enter a vertex. -/
def edgesInto (g : Graph α) (place : Nat) : List Nat :=
  g.incoming.getD place []

/-- The edges that leave a vertex. -/
def edgesOutOf (g : Graph α) (place : Nat) : List Nat :=
  g.outgoing.getD place []

/-- How many edges enter a vertex. -/
def inDegree (g : Graph α) (place : Nat) : Nat :=
  (g.edgesInto place).length

/-- How many edges leave a vertex. -/
def outDegree (g : Graph α) (place : Nat) : Nat :=
  (g.edgesOutOf place).length

/-- The edges at a vertex in a direction. -/
def incident (g : Graph α) (place : Nat) : Direction → List Nat
  | .incoming => g.edgesInto place
  | .outgoing => g.edgesOutOf place
  | .both => g.edgesInto place ++ g.edgesOutOf place
  | .neither => []

/-- The place of an edge given by a number that may count from the end: −1 is
the last edge. -/
def edgeNumber (g : Graph α) (number : Int) : Except Failure Nat :=
  let place := if number < 0 then number + g.edgeCount else number
  if 0 ≤ place && place < g.edgeCount then .ok place.toNat
  else .error (.unknownEdge number)

/-- The vertex at the other end of an edge. -/
def otherEnd (e : Edge α) (place : Nat) : Nat :=
  if place = e.source then e.target else e.source

/-- Which edges have a role. -/
def roleMask (g : Graph α) (role : Role) : List Bool :=
  g.edges.toList.map fun e => e.role == role

/-- How a vertex is shown. -/
def describeVertex (g : Graph α) (place : Nat) : String :=
  "VertexHandle(id=" ++ toString (g.idAt place) ++ ")"

/-- How an edge is shown. -/
def describeEdge (g : Graph α) (e : Edge α) : String :=
  "EdgeHandle(" ++ toString (g.idAt e.source) ++ " -> " ++
    toString (g.idAt e.target) ++ ")"

/-- The sum of a number for each edge, added to `initial` from the left. -/
def sumEdges {β : Type} [Add β] (g : Graph α) (value : Edge α → β)
    (initial : β) : β :=
  g.edges.toList.foldl (fun total e => total + value e) initial

/-- Edges that are left out by adding zero for them leave the sum over the
others. -/
theorem sumEdges_masked {β : Type} [Add β] {zero : β}
    (hzero : ∀ x : β, x + zero = x) (g : Graph α) (keep : Edge α → Bool)
    (value : Edge α → β) (initial : β) :
    g.sumEdges (fun e => if keep e then value e else zero) initial =
      ((g.edges.toList.filter keep).map value).foldl (· + ·) initial := by
  have general : ∀ (edges : List (Edge α)) (total : β),
      edges.foldl (fun total e => total + if keep e then value e else zero)
          total = ((edges.filter keep).map value).foldl (· + ·) total := by
    intro edges
    induction edges with
    | nil => exact fun _ => rfl
    | cons e rest ih =>
        intro total
        rw [List.foldl_cons, ih, List.filter_cons]
        cases keep e with
        | true => rfl
        | false => exact congrArg (List.foldl _ · _) (hzero total)
  exact general _ _

/-- The vertices as they are before any learning, drawn in order from one seeded
source. -/
def startingVertices (g : Graph α) (debug : Bool) (seed : Option Int) :
    Except Failure (Array (Vertex Float)) := do
  let source ← Twister.seeded seed
  let drawn :=
    (List.replicate g.size ()).mapM fun _ => Vertex.drawn g.dimension debug
  let (vertices, _) := drawn.run source
  return (← vertices).toArray

end Graph

end RatingFactors
