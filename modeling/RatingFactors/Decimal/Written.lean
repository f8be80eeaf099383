import RatingFactors.Decimal.Reading
import RatingFactors.Text.Blank
import RatingFactors.Text.Digit

/-!
# Written decimals

A decimal as it is written: a sign, digits before and after a point, and an
exponent. There is at least one digit; the point may come first or last. The
digits may be those of any script.

Edge lines and configurations write their numbers so. A configuration may also
put single underscores between digits, name infinity and what is no number, and
have blanks around it all.

## Main definitions

* `splitDigits` — the run of digits at the front of a text, and the rest.
* `Written.scan` — the longest written decimal at the front of a text, and the
  rest.
* `Written.value` — the double nearest to a written decimal.
* `wholeOfText?`, `doubleOfText?` — the number that a whole text writes.
-/

namespace RatingFactors.Decimal

open Text

/-- The values of the digits at the front of a text, and what follows them. -/
def splitDigits (cs : List Char) : List Nat × List Char :=
  (digitValues (cs.takeWhile isDigit), cs.dropWhile isDigit)

/-- A sign at the front of a text, and what follows it. -/
def splitSign : List Char → Bool × List Char
  | '-' :: rest => (true, rest)
  | '+' :: rest => (false, rest)
  | cs => (false, cs)

/-- A whole number with the given sign and digits. -/
def signedWhole (negative : Bool) (digits : List Nat) : Int :=
  if negative then -(valueOfDigits digits : Int) else valueOfDigits digits

/-- A decimal as it is written. -/
structure Written where
  negative : Bool
  /-- The digits before the point. -/
  whole : List Nat
  /-- The digits after the point. -/
  fraction : List Nat
  exponent : Int
deriving DecidableEq, Repr

namespace Written

/-- The exponent at the front of a text, if one is written there, and what
follows it. -/
def scanExponent (cs : List Char) : Int × List Char :=
  match cs with
  | e :: rest =>
    if e = 'e' || e = 'E' then
      let (negative, rest) := splitSign rest
      match splitDigits rest with
      | ([], _) => (0, cs)
      | (digits, rest) => (signedWhole negative digits, rest)
    else (0, cs)
  | [] => (0, [])

/-- The digits around a point at the front of a text, and what follows them. A
point without any digit is no number. -/
def scanDigits (cs : List Char) : Option (List Nat × List Nat × List Char) :=
  match splitDigits cs with
  | ([], '.' :: rest) =>
    match splitDigits rest with
    | ([], _) => none
    | (fraction, rest) => some ([], fraction, rest)
  | ([], _) => none
  | (whole, '.' :: rest) =>
    let (fraction, rest) := splitDigits rest
    some (whole, fraction, rest)
  | (whole, rest) => some (whole, [], rest)

/-- The longest written decimal at the front of a text, and what follows it. -/
def scan (cs : List Char) : Option (Written × List Char) :=
  let (negative, rest) := splitSign cs
  (scanDigits rest).map fun (whole, fraction, rest) =>
    let (exponent, rest) := scanExponent rest
    ({ negative, whole, fraction, exponent }, rest)

/-- The double nearest to a written decimal. -/
def value (w : Written) : Float :=
  let size := nearest (valueOfDigits (w.whole ++ w.fraction))
    (w.exponent - (w.fraction.length : Int))
  if w.negative then -size else size

end Written

/-- The text without the underscores between its digits; one that stands
elsewhere is not allowed. -/
def ungrouped : List Char → Option (List Char)
  | [] => some []
  | c :: '_' :: d :: rest =>
    if isDigit c && isDigit d then (ungrouped (d :: rest)).map (c :: ·)
    else none
  | c :: rest => if c = '_' then none else (ungrouped rest).map (c :: ·)

/-- The whole number that a text writes. -/
def wholeOfText? (s : String) : Option Int := do
  let cs ← ungrouped (trim s.toList)
  let (negative, rest) := splitSign cs
  match splitDigits rest with
  | ([], _) => none
  | (digits, []) => some (signedWhole negative digits)
  | _ => none

/-- The names of infinity. -/
def infinityNames : List String := ["inf", "infinity"]

/-- The double that a text writes. -/
def doubleOfText? (s : String) : Option Float := do
  let cs ← ungrouped (trim s.toList)
  match Written.scan cs with
  | some (w, []) => some w.value
  | _ =>
    let (negative, rest) := splitSign cs
    let name := (String.ofList rest).toLower
    if infinityNames.contains name then
      some (if negative then -(1.0 / 0.0) else 1.0 / 0.0)
    else if name == "nan" then some (0.0 / 0.0)
    else none

end RatingFactors.Decimal
