import RatingFactors.Decimal.Shortest

/-!
# How numbers are written

Three written forms of a double, each a layout of digits that exact arithmetic
has chosen:

* `text` — the shortest digits that read back, written positionally while the
  decimal exponent lies between −4 and 15 and with an exponent of at least two
  digits beyond that. A whole number keeps one zero after its point.
* `fixed n x` — exactly `n` digits after the point; the exact value of the
  double is rounded, a half to the even neighbour.
* `scientific n x` — one digit, a point, `n` digits, and an exponent of at least
  two digits.

Not-a-number is `nan`, the infinities are `inf` and `-inf`, and negative zero
keeps its sign.
-/

namespace RatingFactors.Decimal

/-- A whole number on at least `width` places, filled with zeros on the left. -/
def padded (width n : Nat) : String :=
  let digits := Nat.toDigits 10 n
  String.ofList (List.replicate (width - digits.length) '0' ++ digits)

/-- An exponent: its sign and at least two digits. -/
def exponentText (e : Int) : String :=
  (if e < 0 then "e-" else "e+") ++ padded 2 e.natAbs

/-- Digits with a point after the first one; a single digit takes none. -/
def pointAfterFirst : List Char → String
  | [] => ""
  | [c] => String.ofList [c]
  | c :: rest => String.ofList (c :: '.' :: rest)

/-- Digits with the point before position `point`, zeros filled in where the
digits do not reach it. -/
def positional (digits : List Char) (point : Int) : String :=
  let count : Int := digits.length
  if point ≤ 0 then
    String.ofList ("0.".toList ++ List.replicate (-point).toNat '0' ++ digits)
  else if count ≤ point then
    String.ofList (digits ++ List.replicate (point - count).toNat '0' ++
      ".0".toList)
  else
    String.ofList (digits.take point.toNat ++ '.' :: digits.drop point.toNat)

/-- The digits of a decimal laid out: positional while the exponent of the
leading digit lies in −4 … 15, otherwise with an exponent. -/
def Scaled.layout (s : Scaled) : String :=
  let digits := Nat.toDigits 10 s.digits
  let lead : Int := s.exponent + digits.length - 1
  if -4 ≤ lead && lead < 16 then positional digits (lead + 1)
  else pointAfterFirst digits ++ exponentText lead

/-- Puts the sign in front. -/
def signed (negative : Bool) (magnitude : String) : String :=
  if negative then "-" ++ magnitude else magnitude

/-- The text of a double: the shortest digits that read back to it. -/
def text (x : Float) : String :=
  match classify x with
  | .nan => "nan"
  | .infinite negative => signed negative "inf"
  | .finite negative d =>
      signed negative (if d.mantissa = 0 then "0.0" else d.shortest.layout)

/-- The text of a double with a set number of digits after the point. -/
def fixed (places : Nat) (x : Float) : String :=
  match classify x with
  | .nan => "nan"
  | .infinite negative => signed negative "inf"
  | .finite negative d =>
    let units := roundDiv (d.numerator * powerOfTen places) d.denominator
    let whole := toString (units / powerOfTen places)
    signed negative <|
      if places = 0 then whole
      else whole ++ "." ++ padded places (units % powerOfTen places)

/-- The digits and the exponent of a positive magnitude rounded to `places + 1`
digits. -/
def Dyadic.rounded (d : Dyadic) (places : Nat) : Nat × Int :=
  let top := d.decimalExponent
  let shift := top - (places : Int)
  let c := roundDiv (d.numerator * powerOfTen (-shift).toNat)
    (d.denominator * powerOfTen shift.toNat)
  if c = powerOfTen (places + 1) then (powerOfTen places, top + 1) else (c, top)

/-- The text of a double as one digit, a point, `places` digits and an
exponent. -/
def scientific (places : Nat) (x : Float) : String :=
  match classify x with
  | .nan => "nan"
  | .infinite negative => signed negative "inf"
  | .finite negative d =>
    let (c, e) := if d.mantissa = 0 then (0, 0) else d.rounded places
    signed negative <|
      pointAfterFirst ((padded (places + 1) c).toList) ++ exponentText e

end RatingFactors.Decimal
