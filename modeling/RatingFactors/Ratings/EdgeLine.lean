import RatingFactors.Decimal.Written

/-!
# Edge lines

An edge file has one edge a line: the number of a row, the number of a column
and, perhaps, a value; without one the value is zero. Commas or blanks stand
between the parts, blanks may stand around them, and nothing else may follow.

The grammar has no choices to take back: digits go on as long as they can, since
what separates parts never begins with a digit, and a value goes on as long as
it can, since only blanks may follow it.

## Main definitions

* `EdgeLine` — the parts of an edge.
* `splitSeparator?` — what stands between two parts.
* `EdgeLine.parse?` — the edge on a line.
-/

namespace RatingFactors.Ratings

open Text Decimal

/-- The parts of an edge as they are written on a line. -/
structure EdgeLine where
  source : Nat
  target : Nat
  value : Float
deriving Repr

/-- What follows the separator at the front of a text: a comma with blanks
around it, or blanks alone. -/
def splitSeparator? (cs : List Char) : Option (List Char) :=
  match trimLeft cs with
  | ',' :: rest => some (trimLeft rest)
  | rest => if cs.head?.any isBlank then some rest else none

/-- The whole number at the front of a text, and what follows it. -/
def splitNumber? (cs : List Char) : Option (Nat × List Char) :=
  match splitDigits cs with
  | ([], _) => none
  | (digits, rest) => some (valueOfDigits digits, rest)

/-- The value at the end of a line: zero if there is none. -/
def parseValue? (cs : List Char) : Option Float :=
  if cs.all isBlank then some 0.0
  else do
    let (written, rest) ← Written.scan (← splitSeparator? cs)
    if rest.all isBlank then some written.value else none

/-- The edge on a line. -/
def EdgeLine.parse? (line : List Char) : Option EdgeLine := do
  let (source, rest) ← splitNumber? (trimLeft line)
  let (target, rest) ← splitNumber? (← splitSeparator? rest)
  let value ← parseValue? rest
  return { source, target, value }

end RatingFactors.Ratings
