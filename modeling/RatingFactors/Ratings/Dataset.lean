import RatingFactors.Configuration.Basic
import RatingFactors.Graph.Bipartite
import RatingFactors.Ratings.Source

/-!
# Datasets

From a path and a configuration to a graph: the configuration names the kind of
source and its options, the table is loaded, repeated rows are removed so that
the last one counts, and the graph is built.

A ratings file numbers rows and columns on their own, so its columns are always
moved. That is written back into the configuration, where the saving of
predictions finds it and moves the identifiers back.

## Main definitions

* `Dataset` — what is known of the ratings at a path, and what has been printed
  about them.
* `Dataset.load` — loads the table.
* `Dataset.buildGraph` — the graph of the table, which is loaded first if need
  be.
-/

namespace RatingFactors

open RatingFactors.Configuration (Value)
open Ratings

/-- What is known of the ratings at a path. -/
structure Dataset where
  path : String
  configuration : Configuration
  /-- The kind of source, as the configuration named it at first. -/
  kind : Value
  /-- Are columns moved? -/
  moved : Bool
  rows : Option (List (Rating Float))
  summary : Option (Summary Float)
  printed : List String

namespace Dataset

/-- A dataset that has not been loaded. -/
def make (path : String) (configuration : Configuration) : Dataset where
  path := Path.tidy path
  configuration := configuration
  kind := configuration.get "loader" (.text "edgelist")
  moved := (configuration.get "remap_target" (.flag false)).isTrue
  rows := none
  summary := none
  printed := []

/-- Printing within work on a dataset. -/
def print {β : Type} (work : Telling β) : Attempt Dataset β :=
  work.within fun lines d => { d with printed := d.printed ++ lines }

/-- Does the value name the ratings file as kind of source? -/
def namesRatingsFile : Value → Bool
  | .text name => name == "movie_lens" || name == "movielens"
  | _ => false

/-- The source of a given kind. A list or a table names no kind at all. -/
def sourceNamed (kind : Value) (options : List (String × Value)) :
    Except Failure Source :=
  match kind with
  | .list _ | .table _ => .error .wrongKind
  | name => Source.make name.shown options

/-- The source that the configuration asks for. -/
def source : Attempt Dataset Source := do
  let d ← get
  if namesRatingsFile d.kind then
    modify fun d => { d with
      moved := true
      configuration := d.configuration.put "remap_target" (.flag true) }
    let c := (← get).configuration
    let validation ← Attempt.lift (c.get "valid_ratio" (.real 0.1)).toReal
    let prediction ← Attempt.lift (c.get "predict_ratio" (.real 0.0)).toReal
    let seed ← Attempt.lift (c.find "seed").toWhole?
    Attempt.lift <| sourceNamed d.kind [
      ("remap_target", .flag true), ("valid_ratio", .real validation),
      ("predict_ratio", .real prediction), ("seed", .whole (seed.getD 42))]
  else
    Attempt.lift <| sourceNamed d.kind [
      ("remap_target", .flag d.moved),
      ("strict", .flag (d.configuration.get "strict" (.flag false)).isTrue)]

/-- A line of sixty marks. -/
def rule : String :=
  String.ofList (List.replicate 60 '=')

/-- The summary of a table, with the mean of the ratings learned from if there
are any. -/
def summaryOf (rows : List (Rating Float)) : Summary Float :=
  { summarize rows with globalMean := (meanOfTraining rows).toOption }

/-- Loads the table. -/
def load {κ : Type} (files : Files κ) : Attempt Dataset Unit := do
  let d ← get
  print (tell ["", rule, "Загрузка графа: " ++ d.path, rule])
  let source ← source
  let loaded ← print (source.load files d.path)
  if loaded.rows.isEmpty then throw (.nothingLoaded d.path)
  let rows ← print (withoutRepeats .last loaded.rows)
  let summary := summaryOf rows
  modify fun d => { d with rows := some rows, summary := some summary }
  print (tell summary.lines)

/-- The graph of the table and its vertices before any learning. -/
def buildGraph {κ : Type} (files : Files κ) :
    Attempt Dataset (Graph Float × Array (Vertex Float)) := do
  if (← get).rows.isNone then load files
  let d ← get
  let c := d.configuration
  let dimension ← Attempt.lift (c.get "latent_dim" (.whole 20)).toWhole
  let seed ← Attempt.lift (c.find "seed").toWhole?
  print (Graph.ofRatings (d.rows.getD []) dimension
    (c.get "debug" (.flag false)).isTrue seed)

end Dataset

end RatingFactors
