import RatingFactors.Ratings.Table
import RatingFactors.Training

/-!
# Documents of a run

What a run leaves as documents: its results with the summary of the ratings, the
numbers of the run, its reports and the final errors; a checkpoint; a figure. An
error that there is none of has no value there.

## Main definitions

* `Report.document`, `Metrics.document`, `Outcome.entries`,
  `Ratings.Summary.document` — the parts of the results.
* `Factors.entries`, `Checkpoint.document` — what has been learned.
* `Figure.Axes.document` — a pair of axes.
* `Artifact.document` — any saved thing.
-/

namespace RatingFactors

/-- A number that there may be none of. -/
def Document.ofNumber? (x : Option Float) : Document :=
  (x.map Document.number).getD .null

/-- A report as a document. -/
def Report.document (r : Report Float) : Document :=
  .object [
    ("elapsed", .number r.elapsed), ("train_rmse", .number r.trainError),
    ("validation_rmse", .ofNumber? r.validationError),
    ("gamma", .number r.rate)]

/-- An entry of the metrics as a document. -/
def Metrics.Entry.document : Metrics.Entry Float → Document
  | .count n => .whole n
  | .number x => .number x

/-- An entry of the metrics as text. -/
def Metrics.Entry.text : Metrics.Entry Float → String
  | .count n => toString n
  | .number x => Decimal.text x

/-- The metrics as a document. -/
def Metrics.document (m : Metrics Float) : Document :=
  .object (m.entries.map fun (name, entry) => (name, entry.document))

/-- The metrics as lines, with the names padded to twenty places. -/
def Metrics.lines (m : Metrics Float) : List String :=
  m.entries.map fun (name, entry) =>
    "  " ++ name ++ String.ofList (List.replicate (20 - name.length) ' ') ++
      ": " ++ entry.text

/-- The final error of a role, if it has any edges. -/
def finalError (errors : Option (RoleErrors Float)) : Option Float :=
  errors.map (·.rootMeanSquare)

/-- The entries of the document of a run. -/
def Outcome.entries (o : Outcome Float) : List (String × Document) := [
  ("global_mean", .number o.globalMean), ("runtime", .number o.runtime),
  ("num_updates", .whole o.updates), ("iterations", .whole o.iterations),
  ("history", .list (o.history.map Report.document)),
  ("final_gamma", .number o.finalRate),
  ("final_train_rmse", .ofNumber? (finalError o.metrics.train)),
  ("final_validation_rmse", .ofNumber? (finalError o.metrics.validation)),
  ("metrics", o.metrics.document)]

/-- The summary of a table as a document. -/
def Ratings.Summary.document (s : Ratings.Summary Float) : Document :=
  .object <| [
    ("n_rows", .whole s.rowCount), ("n_cols", .whole s.columnCount),
    ("n_edges", .whole s.edgeCount), ("n_train", .whole s.trainCount),
    ("n_validate", .whole s.validateCount),
    ("n_predict", .whole s.predictCount), ("sparsity", .number s.sparsity)]
    ++ (s.globalMean.toList.map fun mean => ("global_mean", .number mean))

/-- Numbers as a document. -/
def Document.ofNumbers (xs : List Float) : Document :=
  .list (xs.map .number)

/-- The columns of a model as entries of a document. -/
def Factors.entries (f : Factors Float) : List (String × Document) := [
  ("vertex_ids", .list (f.ids.map .whole)),
  ("latent", .list (f.latent.map .ofNumbers)),
  ("bias", .ofNumbers f.bias), ("update_count", .list (f.updates.map .whole))]

/-- A checkpoint as a document. -/
def Checkpoint.document (c : Checkpoint Float) : Document :=
  .object (c.factors.entries ++ [
    ("gamma", .number c.rate), ("global_mean", .number c.globalMean),
    ("history", .list (c.history.map Report.document))])

/-- A curve as a document: its name, its points, the style of its line, and its
mark. -/
def Figure.Curve.document (c : Figure.Curve Float) : Document :=
  .list [.text c.label, .ofNumbers c.xs, .ofNumbers c.ys,
    .text (if c.dashed then "--" else "-"),
    .text ((c.mark.map String.singleton).getD "None")]

/-- A pair of axes as a document. -/
def Figure.Axes.document (a : Figure.Axes Float) : Document :=
  .object [
    ("x", .text a.xLabel), ("y", .text a.yLabel), ("title", .text a.title),
    ("texts", .list (a.texts.map .text)),
    ("lines", .list (a.curves.map Curve.document)),
    ("legend",
      (a.legend.map fun labels => .list (labels.map .text)).getD .null)]

/-- A saved thing as a document. -/
def Artifact.document : Artifact Float → Document
  | .checkpoint c => c.document
  | .results d => d
  | .figure axes => .list (axes.map Figure.Axes.document)

end RatingFactors
