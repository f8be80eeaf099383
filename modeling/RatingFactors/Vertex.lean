import RatingFactors.Random.Twister
import RatingFactors.Role
import RatingFactors.Step

/-!
# Vertices and edges

A vertex is a row or a column of the rating matrix. It carries what is learned:
a latent vector and a bias, together with the number of updates it has received.
An edge is a rating: a value with a role, from a row to a column.
-/

namespace RatingFactors

/-- What is learned about a row or a column. -/
structure Vertex (α : Type) where
  latent : List α
  bias : α
  updates : Int
deriving Repr

namespace Vertex

variable {α : Type} [Scalar α]

/-- The sum of two vectors. A vector of one entry is added to every entry of the
other. -/
def addVectors (xs ys : List α) : Except Failure (List α) :=
  match xs, ys with
  | [x], ys => .ok (ys.map (x + ·))
  | xs, [y] => .ok (xs.map (· + y))
  | xs, ys =>
    if xs.length = ys.length then .ok (List.zipWith (· + ·) xs ys)
    else .error .vectorLengths

/-- The vertex moved by a step. -/
def move (v : Vertex α) (s : Step α) : Except Failure (Vertex α) := do
  let latent ← addVectors v.latent s.delta
  return { v with latent := latent, bias := v.bias + s.bias }

/-- The vertex with one more update counted. -/
def counted (v : Vertex α) : Vertex α :=
  { v with updates := v.updates + 1 }

/-- How a vertex is shown. -/
def describe (v : Vertex α) : String :=
  "VertexData(latent=" ++ Step.listText v.latent ++ ", bias=" ++
    Scalar.text v.bias ++ ", update_count=" ++ toString v.updates ++ ")"

/-- A new vertex of the given dimension: all ones when debugging, otherwise
drawn evenly from `[-1, 1)`; its bias and its number of updates are zero. -/
def drawn (dimension : Int) (debug : Bool) :
    ExceptT Failure (StateM Twister) (Vertex Float) := do
  if dimension < 0 then throw .negativeDimension
  let latent ←
    if debug then pure (List.replicate dimension.toNat 1.0)
    else
      (Twister.draws Twister.symmetric dimension.toNat :
        StateM Twister (List Float))
  return ⟨latent, 0.0, 0⟩

end Vertex

/-- A rating between two vertices, given by their places in the graph. -/
structure Edge (α : Type) where
  source : Nat
  target : Nat
  value : α
  role : Role
deriving Repr

namespace Edge

variable {α : Type} [Scalar α]

/-- How the rating on an edge is shown; a role of its own has no name to
show. -/
def describe? (value : α) (role : Role) : Option String :=
  if role.isKnown then
    some ("EdgeData(value=" ++ Scalar.text value ++ ", role=" ++
      role.label.toUpper ++ ")")
  else none

end Edge

end RatingFactors
