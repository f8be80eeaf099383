import Std.Data.HashSet
import RatingFactors.Attempt
import RatingFactors.Graph.Places
import RatingFactors.Role
import RatingFactors.Scalar

/-!
# Tables of ratings

A table of ratings is a list of rows: who rates, what is rated, how, and what
the rating is used for. This module prepares such a table for learning.

Two rows repeat each other when they agree in everything but the value. Rows and
columns are both numbered from zero in most data; moving the columns to negative
numbers, `t` to `−(t + 2)`, keeps the two apart. Identifiers have 64 bits, and
moving wraps around like all their arithmetic.

## Main definitions

* `Rating` — a row of a table.
* `withoutRepeats` — the table without repeated rows, by one of three rules.
* `moveColumns` — the table with moved columns.
* `meanOfTraining` — the mean of the ratings learned from.
* `Summary` — counts and sparsity.
-/

namespace RatingFactors

/-- A rating: of a column by a row, with a use. -/
structure Rating (α : Type) where
  source : Int64
  target : Int64
  value : α
  role : Role
deriving Repr

namespace Ratings

variable {α : Type}

/-! ## Repeated rows -/

/-- What repeated rows agree in. -/
structure Key where
  source : Int64
  target : Int64
  role : Role
deriving DecidableEq, Hashable, Repr

/-- What a row's repetitions agree with it in. -/
def keyOf (r : Rating α) : Key :=
  ⟨r.source, r.target, r.role⟩

/-- Which of several repeated rows are kept. -/
inductive KeepRule
  | first
  | last
  | none
deriving DecidableEq, Repr

/-- The rule with a given name. -/
def KeepRule.ofLabel (name : String) : Except Failure KeepRule :=
  if name = "first" then .ok .first
  else if name = "last" then .ok .last
  else .error .unknownKeepRule

/-- The rule with a given name, for a table. In an empty table nothing is
repeated, so there every name will do. -/
def KeepRule.forTable (rows : List (Rating α)) (name : String) :
    Except Failure KeepRule :=
  if rows.isEmpty then .ok .none else ofLabel name

/-- The rows whose key is not in the set and not the key of an earlier row. -/
def firstsBeyond (seen : Std.HashSet Key) : List (Rating α) → List (Rating α)
  | [] => []
  | r :: rest =>
    if seen.contains (keyOf r) then firstsBeyond seen rest
    else r :: firstsBeyond (seen.insert (keyOf r)) rest

/-- The first row of each key. -/
def firsts (rows : List (Rating α)) : List (Rating α) :=
  firstsBeyond ∅ rows

/-- The last row of each key. -/
def lasts (rows : List (Rating α)) : List (Rating α) :=
  (firsts rows.reverse).reverse

/-- The keys that occur twice, beside the keys that occur at all. -/
def repeatedKeys (rows : List (Rating α)) : Std.HashSet Key × Std.HashSet Key :=
  rows.foldl
    (fun (repeated, seen) r =>
      if seen.contains (keyOf r) then (repeated.insert (keyOf r), seen)
      else (repeated, seen.insert (keyOf r)))
    (∅, ∅)

/-- The rows of the keys that occur once. -/
def singles (rows : List (Rating α)) : List (Rating α) :=
  let (repeated, _) := repeatedKeys rows
  rows.filter fun r => !repeated.contains (keyOf r)

/-- The rows that a rule keeps. -/
def kept (rule : KeepRule) (rows : List (Rating α)) : List (Rating α) :=
  match rule with
  | .first => firsts rows
  | .last => lasts rows
  | .none => singles rows

/-- The table without repeated rows; how many were removed is printed. -/
def withoutRepeats (rule : KeepRule) (rows : List (Rating α)) :
    Telling (List (Rating α)) := do
  let left := kept rule rows
  if left.length < rows.length then
    tell [s!"Удалено дубликатов: {rows.length - left.length}"]
  return left

/-! ## Moved columns -/

/-- The number that a column's identifier is moved to. -/
def movedId (target : Int64) : Int64 :=
  -(target + 2)

/-- The table with moved columns. -/
def moveColumns (rows : List (Rating α)) : List (Rating α) :=
  rows.map fun r => { r with target := movedId r.target }

/-! ## Summary -/

/-- The rows of a role. -/
def ofRole (role : Role) (rows : List (Rating α)) : List (Rating α) :=
  rows.filter (·.role == role)

section Numbers

variable [Scalar α]

/-- The mean of the ratings learned from; values that are no numbers are left
out. -/
def meanOfTraining (rows : List (Rating α)) : Except Failure α :=
  let training := (ofRole .train rows).map (·.value)
  if training.isEmpty then .error .noTrainingRows
  else
    let numbers := training.filter fun x => !Scalar.isNaN x
    .ok (Scalar.sum numbers / Scalar.ofInt numbers.length)

/-- What there is to know about a table. -/
structure Summary (α : Type) where
  rowCount : Nat
  columnCount : Nat
  edgeCount : Nat
  trainCount : Nat
  validateCount : Nat
  predictCount : Nat
  /-- The share of pairs of a row and a column that have no rating. -/
  sparsity : α
  /-- The mean of the ratings learned from, if there are any. -/
  globalMean : Option α
deriving Repr

/-- The number of different identifiers. -/
def distinct (ids : List Int64) : Nat :=
  (places ids).size

/-- The share of pairs that have a rating; none if there are no pairs. -/
def density (edges pairs : Nat) : α :=
  if 0 < pairs then Scalar.ofInt edges / Scalar.ofInt pairs else Scalar.zero

/-- The summary of a table, without a mean. -/
def summarize (rows : List (Rating α)) : Summary α :=
  let rowCount := distinct (rows.map (·.source))
  let columnCount := distinct (rows.map (·.target))
  { rowCount, columnCount
    edgeCount := rows.length
    trainCount := (ofRole .train rows).length
    validateCount := (ofRole .validate rows).length
    predictCount := (ofRole .predict rows).length
    sparsity := Scalar.ofInt 1 - density rows.length (rowCount * columnCount)
    globalMean := none }

/-- The lines that show a summary. -/
def Summary.lines (s : Summary α) : List String :=
  [s!"Строк: {s.rowCount}", s!"Колонок: {s.columnCount}",
    s!"Ребер: {s.edgeCount} (train {s.trainCount}, validate {s.validateCount}, "
      ++ s!"predict {s.predictCount})",
    "Разреженность: " ++ Scalar.fixed 6 s.sparsity]

end Numbers

end Ratings

end RatingFactors
