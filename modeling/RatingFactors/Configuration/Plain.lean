import RatingFactors.Configuration.Value

/-!
# Plain words

A word that stands in a configuration without quotes can mean nothing, a truth,
a number or a day; otherwise it is a text. What it means is decided by its
spelling alone:

* nothing: `~`, `null` and the empty word;
* truths: `yes`, `no`, `true`, `false`, `on`, `off`, in small letters, capitals
  or with a capital;
* doubles have a point, and an exponent only with a sign; `.inf` and `.nan` are
  doubles too;
* whole numbers are written in base ten, with `0b` in base two, with `0` in base
  eight, with `0x` in base sixteen, or in base sixty with colons;
* days are `year-month-day`, with a time or without.

Underscores in numbers mean nothing.
-/

namespace RatingFactors.Configuration

/-- A decimal digit of the basic script. -/
def isBasicDigit (c : Char) : Bool :=
  '0' ≤ c && c ≤ '9'

/-- Does every character pass, and is there one? -/
def allOf (test : Char → Bool) (cs : List Char) : Bool :=
  !cs.isEmpty && cs.all test

/-- A digit or an underscore. -/
def isGroupedDigit (c : Char) : Bool :=
  isBasicDigit c || c = '_'

/-- Digits and underscores that begin with a digit. -/
def isGrouped : List Char → Bool
  | c :: rest => isBasicDigit c && rest.all isGroupedDigit
  | [] => false

/-- The text without its underscores. -/
def withoutUnderscores (cs : List Char) : List Char :=
  cs.filter (· ≠ '_')

/-- The value of a digit in a base up to sixteen. -/
def hexDigit? (c : Char) : Option Nat :=
  if isBasicDigit c then some (c.toNat - '0'.toNat)
  else if 'a' ≤ c && c ≤ 'f' then some (c.toNat - 'a'.toNat + 10)
  else if 'A' ≤ c && c ≤ 'F' then some (c.toNat - 'A'.toNat + 10)
  else none

/-- The number that digits write in a base. -/
def valueInBase (base : Nat) (digits : List Char) : Nat :=
  (digits.filterMap hexDigit?).foldl (fun value digit => base * value + digit) 0

/-- The pieces of a text between colons. -/
def atColons : List Char → List (List Char)
  | [] => [[]]
  | c :: rest =>
    match atColons rest with
    | [] => [[c]]
    | piece :: pieces =>
      if c = ':' then [] :: piece :: pieces else (c :: piece) :: pieces

/-- A number of minutes or seconds: at most fifty-nine, on one or two places. -/
def isSixtieth : List Char → Bool
  | [c] => isBasicDigit c
  | [c, d] => '0' ≤ c && c ≤ '5' && isBasicDigit d
  | _ => false

/-- The whole number that unsigned text writes. -/
def plainWhole? (cs : List Char) : Option Nat :=
  match cs with
  | ['0'] => some 0
  | '0' :: 'b' :: rest =>
    if allOf (fun c => c = '0' || c = '1' || c = '_') rest then
      some (valueInBase 2 rest)
    else none
  | '0' :: 'x' :: rest =>
    if allOf (fun c => (hexDigit? c).isSome || c = '_') rest then
      some (valueInBase 16 rest)
    else none
  | '0' :: rest =>
    if allOf (fun c => ('0' ≤ c && c ≤ '7') || c = '_') rest then
      some (valueInBase 8 rest)
    else none
  | _ =>
    match atColons cs with
    | first :: rest =>
      if isGrouped first && rest.all isSixtieth then
        some ((first :: rest).foldl
          (fun value piece => 60 * value + valueInBase 10 piece) 0)
      else none
    | [] => none

/-- The double that unsigned digits around a point write, with an exponent if it
has a sign. -/
def plainDecimal? (cs : List Char) (signed : Bool) : Option Float :=
  let before := cs.takeWhile isGroupedDigit
  match cs.dropWhile isGroupedDigit with
  | '.' :: rest =>
    let after := rest.takeWhile isGroupedDigit
    let tail := rest.dropWhile isGroupedDigit
    let exponentFits := match tail with
      | [] => true
      | e :: sign :: digits =>
        (e = 'e' || e = 'E') && (sign = '-' || sign = '+') &&
          allOf isBasicDigit digits
      | _ => false
    let shapeFits :=
      if before.isEmpty then !signed && isGrouped after else isGrouped before
    if exponentFits && shapeFits then
      match Decimal.Written.scan (withoutUnderscores cs) with
      | some (w, []) => some w.value
      | _ => none
    else none
  | _ => none

/-- The double that an unsigned number in base sixty with a point writes. -/
def plainSixtieths? (cs : List Char) : Option Float :=
  let front := cs.takeWhile (· ≠ '.')
  match atColons front, cs.dropWhile (· ≠ '.') with
  | first :: middle :: rest, '.' :: after =>
    if isGrouped first && (middle :: rest).all isSixtieth &&
        after.all isGroupedDigit then
      let last := ((middle :: rest).getLast?).getD []
      let lower :=
        match Decimal.Written.scan
            (withoutUnderscores (last ++ '.' :: after)) with
        | some (w, []) => w.value
        | _ => 0.0
      let higher := (first :: middle :: rest).dropLast.reverse
      let (sum, _) := higher.foldl
        (fun (sum, base) piece =>
          (sum + Float.ofNat (valueInBase 10 piece) * base, base * 60.0))
        (lower, 60.0)
      some sum
    else none
  | _, _ => none

/-- The double that a word writes. -/
def plainReal? (cs : List Char) : Option Float :=
  let (negative, rest) := Decimal.splitSign cs
  let signed := rest.length != cs.length
  let name := String.ofList rest
  let size? :=
    if [".inf", ".Inf", ".INF"].contains name then some (1.0 / 0.0)
    else if !signed && [".nan", ".NaN", ".NAN"].contains name then
      some (0.0 / 0.0)
    else (plainDecimal? rest signed).orElse fun _ => plainSixtieths? rest
  size?.map fun size => if negative then -size else size

/-- Is the text a number of days, months, hours or the like, on one or two
places? -/
def isShortNumber (cs : List Char) : Bool :=
  allOf isBasicDigit cs && cs.length ≤ 2

/-- Is the text a shift of time: `Z`, or a sign, hours and perhaps minutes? -/
def isZone : List Char → Bool
  | [] => true
  | ['Z'] => true
  | sign :: rest =>
    (sign = '-' || sign = '+') &&
      match atColons rest with
      | [hours] => isShortNumber hours
      | [hours, minutes] =>
        isShortNumber hours && allOf isBasicDigit minutes &&
          minutes.length = 2
      | _ => false

/-- Is the text a time of day, perhaps with a fraction and a shift? -/
def isTimeOfDay (cs : List Char) : Bool :=
  let isBody (c : Char) : Bool := isBasicDigit c || c = ':'
  let body := cs.takeWhile isBody
  let rest := cs.dropWhile isBody
  let rest := match rest with
    | '.' :: fraction => fraction.dropWhile isBasicDigit
    | other => other
  let zone := rest.dropWhile fun c => c = ' ' || c = '\t'
  isZone zone &&
    match atColons body with
    | [hours, minutes, seconds] =>
      isShortNumber hours && allOf isBasicDigit minutes && minutes.length = 2
        && allOf isBasicDigit seconds && seconds.length = 2
    | _ => false

/-- The day, or day and time, that a word writes. -/
def plainMoment? (cs : List Char) : Option Value :=
  let year := cs.takeWhile isBasicDigit
  match cs.dropWhile isBasicDigit with
  | '-' :: rest =>
    let month := rest.takeWhile isBasicDigit
    match rest.dropWhile isBasicDigit with
    | '-' :: rest =>
      let day := rest.takeWhile isBasicDigit
      let rest := rest.dropWhile isBasicDigit
      if year.length = 4 && isShortNumber month && isShortNumber day then
        match rest with
        | [] =>
          if month.length = 2 && day.length = 2 then
            some (.moment (String.ofList cs) false)
          else none
        | c :: rest =>
          let time :=
            if c = 'T' || c = 't' then rest
            else if c = ' ' || c = '\t' then
              rest.dropWhile fun c => c = ' ' || c = '\t'
            else []
          if isTimeOfDay time then some (.moment (String.ofList cs) true)
          else none
      else none
    | _ => none
  | _ => none

/-- The words for truth and falsehood. -/
def truthWords (truth : Bool) : List String :=
  if truth then ["yes", "Yes", "YES", "true", "True", "TRUE", "on", "On", "ON"]
  else ["no", "No", "NO", "false", "False", "FALSE", "off", "Off", "OFF"]

/-- What a word without quotes means. -/
def Value.ofPlain (word : String) : Value :=
  let cs := word.toList
  let (negative, digits) := Decimal.splitSign cs
  if ["", "~", "null", "Null", "NULL"].contains word then .null
  else if (truthWords true).contains word then .flag true
  else if (truthWords false).contains word then .flag false
  else match plainReal? cs with
    | some x => .real x
    | none =>
      match plainWhole? digits with
      | some n => .whole (if negative then -(n : Int) else n)
      | none => (plainMoment? cs).getD (.text word)

end RatingFactors.Configuration
