import RatingFactors.Descent
import RatingFactors.Files
import RatingFactors.Ratings.Identifiers

/-!
# Evaluation

The model as a whole: its numbers as columns, its predictions for edges, and how
far these are from known ratings. Predictions are made from the columns, for
many edges at once; as long as the bounds of predictions are numbers, they agree
with those that learning makes edge by edge.

## Main definitions

* `Factors` — what is learned, one column per kind of number.
* `Evaluation.predictions` — the predicted ratings of the selected edges, in
  order.
* `Metrics` — root mean squared and mean absolute errors of both roles.
* `Evaluation.predictionLines` — the predictions of all edges as a written
  table.
-/

namespace RatingFactors

/-- What is learned about all vertices, one column for each kind of number. -/
structure Factors (α : Type) where
  ids : List Int
  latent : List (List α)
  bias : List α
  updates : List Int
  /-- The number of latent coordinates. -/
  width : Nat
deriving Repr

namespace Factors

variable {α : Type}

/-- The columns of a model. All latent vectors must agree in length; a model
without vertices has the width that its graph gives new ones. -/
def ofVertices (g : Graph α) (vertices : Array (Vertex α)) :
    Except Failure (Factors α) := do
  let all := vertices.toList
  let width ← match all with
    | [] =>
      if g.dimension < 0 then throw .negativeDimension
      else pure g.dimension.toNat
    | first :: _ =>
      if all.all fun v => v.latent.length == first.latent.length then
        pure first.latent.length
      else throw .vectorLengths
  return {
    ids := g.ids.toList.map Int64.toInt
    latent := all.map (·.latent)
    bias := all.map (·.bias)
    updates := all.map (·.updates)
    width }

/-- The vertices with the numbers of the columns. -/
def vertices (f : Factors α) : List (Vertex α) :=
  (f.latent.zip (f.bias.zip f.updates)).map fun (latent, bias, updates) =>
    ⟨latent, bias, updates⟩

end Factors

/-- Root mean squared and mean absolute error of one role. -/
structure RoleErrors (α : Type) where
  rootMeanSquare : α
  meanAbsolute : α
deriving Repr

/-- How far predictions are from known ratings. The errors of a role without
edges are left out. -/
structure Metrics (α : Type) where
  trainCount : Nat
  train : Option (RoleErrors α)
  validationCount : Nat
  validation : Option (RoleErrors α)
deriving Repr

namespace Metrics

variable {α : Type}

/-- A number of a metrics table. -/
inductive Entry (α : Type)
  | count (n : Nat)
  | number (x : α)

/-- The entries for one role: the number of edges, and the errors if there are
any. -/
def roleEntries (name : String) (count : Nat) (errors : Option (RoleErrors α)) :
    List (String × Entry α) :=
  ("n_" ++ name, .count count) ::
    match errors with
    | none => []
    | some e =>
      [(name ++ "_rmse", .number e.rootMeanSquare),
        (name ++ "_mae", .number e.meanAbsolute)]

/-- The metrics as a table. -/
def entries (m : Metrics α) : List (String × Entry α) :=
  roleEntries "train" m.trainCount m.train
    ++ roleEntries "validation" m.validationCount m.validation

end Metrics

namespace Evaluation

variable {α : Type} [Scalar α]

/-- A prediction moved into the allowed range; in a range with a bound that is
no number, no prediction is a number. -/
def bounded (s : Settings α) (x : α) : α :=
  if Scalar.isNaN s.lowest || Scalar.isNaN s.highest then s.lowest + s.highest
  else s.clamp x

/-- The predicted rating between two rows of the columns. -/
def predictAt (s : Settings α) (f : Factors α) (source target : Nat) : α :=
  let latent (place : Nat) : List α := f.latent.getD place []
  let bias (place : Nat) : α := f.bias.getD place Scalar.zero
  bounded s
    (s.globalMean + bias source + bias target +
      Scalar.dot (latent source) (latent target))

/-- The predicted ratings of the edges that a mask selects, in the order of
their numbers. A mask must have an entry for each edge; without one all edges
are selected. -/
def predictions (g : Graph α) (vertices : Array (Vertex α)) (s : Settings α)
    (mask : Option (List Bool)) : Except Failure (List α) := do
  let f ← Factors.ofVertices g vertices
  let selected ← match mask with
    | none => pure g.edges.toList
    | some mask =>
      if mask.length = g.edgeCount then
        pure (((g.edges.toList.zip mask).filter (·.2)).map (·.1))
      else throw .selectionLength
  return selected.map fun e => predictAt s f e.source e.target

/-- The size of a number. -/
def magnitude (x : α) : α :=
  if Scalar.less x Scalar.zero then -x else x

/-- The number of edges of a role, and the errors of their predictions if there
are any. -/
def ofRole (g : Graph α) (vertices : Array (Vertex α)) (s : Settings α)
    (role : Role) : Except Failure (Nat × Option (RoleErrors α)) := do
  let mask := g.roleMask role
  let count := mask.count true
  if count = 0 then return (0, none)
  let predicted ← predictions g vertices s (some mask)
  let values := (g.edges.toList.filter (·.role == role)).map (·.value)
  let residuals := List.zipWith (· - ·) predicted values
  let mean (xs : List α) : α := Scalar.sum xs / Scalar.ofInt count
  return (count, some {
    rootMeanSquare := Scalar.root (mean (residuals.map fun x => x * x))
    meanAbsolute := mean (residuals.map magnitude) })

/-- How far predictions are from the ratings learned from and from those held
out. -/
def metrics (g : Graph α) (vertices : Array (Vertex α)) (s : Settings α) :
    Except Failure (Metrics α) := do
  let (trainCount, train) ← ofRole g vertices s .train
  let (validationCount, validation) ← ofRole g vertices s .validate
  return { trainCount, train, validationCount, validation }

/-- The identifier that a moved column identifier was made from. -/
def unmovedId (id : Int) : Int :=
  -id - 2

/-- One line of the written table. -/
def predictionLine (source target : Int) (prediction : α) : String :=
  toString source ++ "\t" ++ toString target ++ "\t" ++
    Scalar.cell prediction ++ "\n"

/-- The predictions of all edges, one line each, in the order of their numbers.
With `moved` set the identifiers of columns are moved back; what is written must
fit into 64 bits. -/
def predictionLines (g : Graph α) (vertices : Array (Vertex α)) (s : Settings α)
    (moved : Bool) : Except Failure (List String) := do
  let predicted ← predictions g vertices s none
  let targets := g.edges.toList.map fun e =>
    let id := g.idAt e.target
    if moved then unmovedId id else id
  if !targets.all Ratings.isIdentifier then throw .tooLarge
  let sources := g.edges.toList.map fun e => g.idAt e.source
  return List.zipWith (fun (source, target) x => predictionLine source target x)
    (sources.zip targets) predicted

/-- The path of the predictions for a given beginning. -/
def predictionPath (start : String) : String :=
  Path.tidy (start ++ ".predictions.tsv")

/-- Writes the predictions of all edges. The result is the tree of files and the
line to print. -/
def savePredictions {κ : Type} (g : Graph α) (vertices : Array (Vertex α))
    (s : Settings α) (start : String) (moved : Bool) (files : Files κ) :
    Except Failure (Files κ × String) := do
  let lines ← predictionLines g vertices s moved
  let path := predictionPath start
  let files :=
    (files.makeFolders (Path.parent path)).writeText path (String.join lines)
  return (files, s!"Предсказания сохранены: {path} ({lines.length} строк)")

end Evaluation

end RatingFactors
