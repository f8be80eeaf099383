import RatingFactors.Decimal.Dyadic
import RatingFactors.Decimal.Written
import RatingFactors.Failure
import RatingFactors.Ratings.Identifiers
import RatingFactors.Scalar

/-!
# Columns of a ratings table

What the fields of a column mean is decided for the column as a whole: if all
are whole numbers they are kept as such, if all are numbers as doubles, if all
are truths as truths, and otherwise as texts. A field may be missing; some words
say so. A column of whole numbers with missing ones holds doubles.

From such a column identifiers or values are taken.

## Main definitions

* `Column`, `Column.ofFields` — what the fields of a column mean.
* `Column.identifiers`, `Column.values` — the numbers taken from a column.
-/

namespace RatingFactors.Ratings

open Decimal

/-- The words for a missing field. -/
def missingWords : List String := [
  "", "#N/A", "#N/A N/A", "#NA", "-1.#IND", "-1.#QNAN", "-NaN", "-nan",
  "1.#IND", "1.#QNAN", "<NA>", "N/A", "NA", "NULL", "NaN", "None", "n/a",
  "nan", "null"]

/-- Is the field missing? -/
def isMissing (field : String) : Bool :=
  missingWords.contains field

/-- What the fields of a column mean. -/
inductive Column
  | wholes (numbers : List Int)
  | reals (numbers : List Float)
  | truths (flags : List Bool)
  | texts (fields : List (Option String))
deriving Repr

namespace Column

/-- A blank around a number in a table. -/
def isTableBlank (c : Char) : Bool :=
  c = ' ' || ('\t' ≤ c && c ≤ '\r')

/-- The text without blanks at its ends, if no character in it is outside the
basic ones. -/
def bare? (field : String) : Option (List Char) :=
  let cs := (field.toList.dropWhile isTableBlank).reverse.dropWhile isTableBlank
  if cs.all fun c => c.toNat < 128 then some cs.reverse else none

/-- The whole number that a field writes. -/
def whole? (field : String) : Option Int := do
  let (negative, rest) := splitSign (← bare? field)
  match splitDigits rest with
  | ([], _) => none
  | (digits, []) => some (signedWhole negative digits)
  | _ => none

/-- The names of infinity in a table, without their sign. -/
def infinityWords : List String := ["inf", "infinity"]

/-- The double that a field writes. -/
def real? (field : String) : Option Float := do
  let cs ← bare? field
  match Written.scan cs with
  | some (w, []) =>
    let size := accumulated w.whole w.fraction w.exponent
    some (if w.negative then -size else size)
  | _ =>
    let (negative, _) := splitSign field.toList
    let name := (String.ofList (splitSign field.toList).2).toLower
    if infinityWords.contains name then
      some (if negative then -(1.0 / 0.0) else 1.0 / 0.0)
    else none

/-- The truth that a field writes. -/
def truth? (field : String) : Option Bool :=
  if ["True", "TRUE", "true"].contains field then some true
  else if ["False", "FALSE", "false"].contains field then some false
  else none

/-- A field as a double; nothing for a missing one is no number. -/
def realOrMissing? (field : String) : Option Float :=
  if isMissing field then some (0.0 / 0.0) else real? field

/-- Do whole numbers fit into 64 bits, all with a sign or all without? -/
def fit (numbers : List Int) : Bool :=
  numbers.all isIdentifier || numbers.all fun n => 0 ≤ n && n < idRange

/-- The fields as they stand. -/
def ofTexts (fields : List String) : Column :=
  .texts (fields.map fun field => if isMissing field then none else some field)

/-- What the fields of a column mean. -/
def ofFields (fields : List String) : Column :=
  match fields.mapM fun field =>
    if isMissing field then none else whole? field with
  | some numbers => if fit numbers then .wholes numbers else ofTexts fields
  | none =>
    match fields.mapM realOrMissing? with
    | some numbers => .reals numbers
    | none =>
      match fields.mapM truth? with
      | some flags => .truths flags
      | none => ofTexts fields

/-- A double cut to an identifier; one out of range becomes the least. -/
def identifierOfReal (x : Float) : Except Failure Int64 :=
  match wholePart? x with
  | none => .error .missingIdentifier
  | some n => .ok (if isIdentifier n then Int64.ofInt n else Int64.minValue)

/-- A text as an identifier. -/
def identifierOfText (field : Option String) : Except Failure Int64 :=
  match field.bind wholeOfText? with
  | none => .error .notANumber
  | some n => if isIdentifier n then .ok (Int64.ofInt n) else .error .tooLarge

/-- The identifiers of a column. -/
def identifiers : Column → Except Failure (List Int64)
  | .wholes numbers => .ok (numbers.map Int64.ofInt)
  | .reals numbers =>
    if numbers.any fun x => (wholePart? x).isNone then .error .missingIdentifier
    else numbers.mapM identifierOfReal
  | .truths flags => .ok (flags.map fun flag => if flag then 1 else 0)
  | .texts fields => fields.mapM identifierOfText

/-- A text as a value; a missing one is no number. -/
def valueOfText : Option String → Except Failure Float
  | none => .ok (0.0 / 0.0)
  | some field =>
    match doubleOfText? field with
    | some x => .ok x
    | none => .error .notANumber

/-- The values of a column. -/
def values : Column → Except Failure (List Float)
  | .wholes numbers => .ok (numbers.map doubleOfInt)
  | .reals numbers => .ok numbers
  | .truths flags => .ok (flags.map fun flag => if flag then 1.0 else 0.0)
  | .texts fields => fields.mapM valueOfText

end Column

end RatingFactors.Ratings
