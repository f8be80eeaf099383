import RatingFactors.Configuration.Value
import RatingFactors.Files
import RatingFactors.Random.Twister
import RatingFactors.Ratings.Column
import RatingFactors.Ratings.Csv
import RatingFactors.Ratings.Table

/-!
# Ratings files

Ratings as one comma-separated file, `ratings.csv`, with a column for who rates,
one for what is rated and one for the rating; other columns are ignored. The
file does not say what the ratings are used for, so a share of them is drawn for
validation and another for prediction.

For each rating one number in [0, 1) is drawn: below the first share it is held
out to validate, below the sum of both it is to be predicted, otherwise it is
learned from.

## Main definitions

* `Shares`, `Shares.ofValues` — shares that leave something to learn from.
* `Shares.roleAt` — the use of a rating for which a number has been drawn.
* `loadRatings` — the ratings of a file, with drawn uses.
-/

namespace RatingFactors.Ratings

open RatingFactors.Configuration (Value)

/-- The shares of ratings that are held out. -/
structure Shares where
  validation : Float
  prediction : Float
deriving Repr

/-- Shares given by values: none may be negative, and something must be left to
learn from. -/
def Shares.ofValues (validation prediction : Value) :
    Except Failure Shares := do
  let bad : Failure := .badShares validation.shown prediction.shown
  let v ← validation.number
  if v < 0.0 then throw bad
  let p ← prediction.number
  if p < 0.0 then throw bad
  if 1.0 ≤ v + p then throw bad
  return ⟨v, p⟩

/-- The use of a rating for which a number has been drawn. -/
def Shares.roleAt (s : Shares) (drawn : Float) : Role :=
  if drawn < s.validation then .validate
  else if s.validation ≤ drawn && drawn < s.validation + s.prediction then
    .predict
  else .train

/-- The columns of a ratings file and the names that they have in a table of
ratings. -/
def renamedColumns : List (String × String) :=
  [("userId", "sourceId"), ("movieId", "targetId"), ("rating", "value")]

/-- The name of a column in a table of ratings. -/
def renamed (name : String) : String :=
  ((renamedColumns.find? (·.1 == name)).map (·.2)).getD name

/-- The columns that a table of ratings needs. -/
def neededColumns : List String := ["sourceId", "targetId", "value"]

/-- The column with a given name. -/
def columnNamed (t : Csv.Table) (names : List String) (name : String) :
    Column :=
  .ofFields (t.column (names.idxOf name))

/-- The path of the ratings file at a path: the file itself, or the one in a
folder. -/
def ratingsPath {κ : Type} (files : Files κ) (path : String) :
    Except Failure String :=
  let file := if files.isFolder path then Path.join path "ratings.csv" else path
  if files.exists? file then .ok file else .error (.ratingsMissing path)

/-- The ratings of a file, with uses drawn by the shares from a seeded source,
and with moved columns if asked to. -/
def loadRatings {κ : Type} (files : Files κ) (moved : Bool) (shares : Shares)
    (seed : Option Int) (path : String) : Telling (List (Rating Float)) := do
  let file ← Attempt.lift (ratingsPath files path)
  let text ← Attempt.lift (files.readText file)
  let table ← Attempt.lift (Csv.Table.ofText text)
  let names := table.names.map renamed
  let missing := neededColumns.filter fun name => !names.contains name
  if !missing.isEmpty then
    throw (.columnsMissing (Path.name file) missing names)
  let source ← Attempt.lift (Twister.seeded seed)
  let count := table.rows.length
  let (drawn, _) := (Twister.draws Twister.unit count).run source
  tell [s!"Загружено {count} рейтингов из MovieLens"]
  let sources ← Attempt.lift (columnNamed table names "sourceId").identifiers
  let targets ← Attempt.lift (columnNamed table names "targetId").identifiers
  let values ← Attempt.lift (columnNamed table names "value").values
  let rows := List.zipWith
    (fun (source, target) (value, role) =>
      { source, target, value, role : Rating Float })
    (sources.zip targets) (values.zip (drawn.map shares.roleAt))
  return if moved then moveColumns rows else rows

end RatingFactors.Ratings
