import RatingFactors.Decimal.Dyadic
import RatingFactors.Decimal.Reading
import RatingFactors.Failure

/-!
# Identifiers of 64 bits

Identifiers read from files are stored in 64 bits with a sign. A number that
fits without one is wrapped around; a larger one is refused.

Numbers are stored file by file first, with a sign if that is enough for all
numbers of the file. Where files that need the sign bit meet files that do not,
only doubles can hold both, so there the numbers lose the bits that a double
cannot keep, and what no longer fits becomes the least identifier.
-/

namespace RatingFactors.Ratings

/-- The number of identifiers. -/
def idRange : Nat := UInt64.size

/-- The least number that needs the sign bit. -/
def signBit : Nat := UInt64.size / 2

/-- Is the number an identifier as it stands? -/
def isIdentifier (n : Int) : Bool :=
  Int64.minValue.toInt ≤ n && n ≤ Int64.maxValue.toInt

/-- A number wrapped into an identifier. -/
def wrapped (n : Nat) : Int64 :=
  Int64.ofNat n

/-- The identifier that is left of a number held by a double. -/
def throughDouble (n : Nat) : Int64 :=
  match Decimal.wholePart? (Decimal.nearest n 0) with
  | some m => if m < signBit then Int64.ofInt m else Int64.minValue
  | none => Int64.minValue

/-- Does a file's column need the sign bit? -/
def needsSignBit (column : List Nat) : Bool :=
  column.any (signBit ≤ ·)

/-- Do files that need the sign bit meet files that do not? Files without edges
do not count. -/
def isMixed (columns : List (List Nat)) : Bool :=
  let filled := columns.filter (!·.isEmpty)
  filled.any needsSignBit && filled.any fun column => !needsSignBit column

/-- The identifiers for the numbers of one column in all files. -/
def identifiers (columns : List (List Nat)) : Except Failure (List Int64) :=
  if columns.any (·.any (idRange ≤ ·)) then .error .tooLarge
  else if isMixed columns then .ok (columns.flatten.map throughDouble)
  else .ok (columns.flatten.map wrapped)

end RatingFactors.Ratings
