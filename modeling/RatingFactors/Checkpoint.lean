import RatingFactors.Document
import RatingFactors.Evaluation
import RatingFactors.Figure
import RatingFactors.Monitor

/-!
# Saved things

A checkpoint holds what a run has learned: the columns of the model, the
learning rate, the mean rating and the reports so far. It fits every graph with
the same vertices.

Besides checkpoints a run leaves a document of its results and a figure.
-/

namespace RatingFactors

/-- What a run has learned. -/
structure Checkpoint (α : Type) where
  factors : Factors α
  rate : α
  globalMean : α
  history : List (Report α)
deriving Repr

/-- The things that a run saves and that are not plain text. -/
inductive Artifact (α : Type)
  | checkpoint (content : Checkpoint α)
  | results (content : Document)
  | figure (content : List (Figure.Axes α))

namespace Checkpoint

variable {α : Type}

/-- Does the checkpoint belong to a graph with these vertices? -/
def fits (c : Checkpoint α) (g : Graph α) : Bool :=
  c.factors.ids == g.ids.toList.map Int64.toInt

/-- The checkpoint that stands at a path. -/
def read (files : Files (Artifact α)) (path : String) :
    Except Failure (Checkpoint α) :=
  match files.entry? (Path.tidy path) with
  | some (.thing (.checkpoint c)) => .ok c
  | some .folder => .error (.isDirectory path)
  | some _ => .error .undecodable
  | none => .error (.fileMissing path)

end Checkpoint

end RatingFactors
