import RatingFactors.Graph.Basic
import RatingFactors.Ratings.Table

/-!
# Graphs of tables

A table of ratings becomes a graph if no identifier is a row of one rating and
the column of another, and if every rating has one of the three uses. The
vertices of such a graph have edges in one direction only: rows have edges that
leave, columns have edges that enter.

## Main definitions

* `Graph.sharedIds` — the identifiers that occur on both sides, increasing.
* `Graph.ofRatings` — the graph of a table and its vertices before any learning.
-/

namespace RatingFactors.Graph

variable {α : Type}

/-- The identifiers that occur as rows and as columns, increasing. -/
def sharedIds (rows : List (Rating α)) : List Int :=
  let sources := places (rows.map (·.source))
  let targets := places (rows.map (·.target))
  (sources.toList.filter fun id => (placeOf? targets id.toInt).isSome).map
    Int64.toInt

/-- How many vertices have edges that leave and none that enter. -/
def rowCount (g : Graph α) : Nat :=
  (List.range g.size).countP fun place =>
    0 < g.outDegree place && g.inDegree place = 0

/-- How many vertices have edges that enter and none that leave. -/
def columnCount (g : Graph α) : Nat :=
  (List.range g.size).countP fun place =>
    0 < g.inDegree place && g.outDegree place = 0

/-- The graph whose edges are the rows of a table, in order. -/
def ofRows (rows : List (Rating α)) (dimension : Int) :
    Except Failure (Graph α) :=
  ofColumns (rows.map (·.source)) (rows.map (·.target)) (rows.map (·.value))
    (rows.map (·.role)) dimension

/-- The graph of a table and its vertices before any learning; its size is
printed. -/
def ofRatings (rows : List (Rating Float)) (dimension : Int) (debug : Bool)
    (seed : Option Int) : Telling (Graph Float × Array (Vertex Float)) := do
  match sharedIds rows with
  | [] => pure ()
  | first :: others => throw (.sharedIdentifiers (others.length + 1) first)
  match rows.find? fun r => !r.role.isKnown with
  | some r => throw (.notARole r.role.label)
  | none => pure ()
  let g ← Attempt.lift (ofRows rows dimension)
  let vertices ← Attempt.lift (g.startingVertices debug seed)
  tell [s!"Построен bipartite граф: {g.size} вершин "
    ++ s!"({g.rowCount} строк, {g.columnCount} колонок), {g.edgeCount} ребер"]
  return (g, vertices)

end RatingFactors.Graph
