import RatingFactors.Decimal.Written
import RatingFactors.Failure
import RatingFactors.Scalar

/-!
# Values of a configuration

A configuration holds values of several kinds, and what reads it asks for a
number, a truth or a text whatever the kind is. This module has the kinds and
the three conversions: they accept what can be understood and name what cannot.

A text is understood as a number when it writes one; a number with a fraction
loses it when a whole number is asked for; truth is whether there is anything at
all.

## Main definitions

* `Value` — the kinds of values.
* `Value.toWhole`, `Value.toReal`, `Value.isTrue` — the conversions.
* `Value.shown` — a value as it appears in a message.
-/

namespace RatingFactors.Configuration

/-- A value of a configuration. -/
inductive Value
  | null
  | flag (value : Bool)
  | whole (value : Int)
  | real (value : Float)
  | text (value : String)
  /-- A day, or a day with a time, as it was written. -/
  | moment (written : String) (hasTime : Bool)
  | list (items : List Value)
  | table (entries : List (String × Value))

namespace Value

/-- The whole number that a value is understood as. -/
def toWhole : Value → Except Failure Int
  | flag value => .ok (if value then 1 else 0)
  | whole value => .ok value
  | real value =>
    match Decimal.wholePart? value with
    | some n => .ok n
    | none => .error (if value.isNaN then .notANumber else .tooLarge)
  | text value =>
    match Decimal.wholeOfText? value with
    | some n => .ok n
    | none => .error .notANumber
  | _ => .error .wrongKind

/-- A whole number as a double, unless it is too large for one. -/
def realOfWhole (n : Int) : Except Failure Float :=
  let x := doubleOfInt n
  if x.isInf then .error .tooLarge else .ok x

/-- The double that a value is understood as. -/
def toReal : Value → Except Failure Float
  | flag value => .ok (if value then 1.0 else 0.0)
  | whole value => realOfWhole value
  | real value => .ok value
  | text value =>
    match Decimal.doubleOfText? value with
    | some x => .ok x
    | none => .error .notANumber
  | _ => .error .wrongKind

/-- Is there anything to the value? Nothing, zero and what is empty count as
false. -/
def isTrue : Value → Bool
  | null => false
  | flag value => value
  | whole value => value != 0
  | real value => value != 0.0
  | text value => value != ""
  | moment .. => true
  | list items => !items.isEmpty
  | table entries => !entries.isEmpty

/-- Is there no value? -/
def isNull : Value → Bool
  | null => true
  | _ => false

/-- The whole number that a value is understood as, if there is a value. -/
def toWhole? (v : Value) : Except Failure (Option Int) :=
  if v.isNull then .ok none else v.toWhole.map some

/-- A value as a number, if it is one already; nothing is read out of a text. -/
def number : Value → Except Failure Float
  | flag value => .ok (if value then 1.0 else 0.0)
  | whole value => .ok (doubleOfInt value)
  | real value => .ok value
  | _ => .error .wrongKind

mutual

/-- A value inside another one, as it appears in a message. -/
def describe : Value → String
  | null => "None"
  | flag value => if value then "True" else "False"
  | whole value => toString value
  | real value => Decimal.text value
  | text value => Text.quoted value
  | moment written _ => written
  | list items => "[" ++ ", ".intercalate (describeItems items) ++ "]"
  | table entries =>
    "\x7b" ++ ", ".intercalate (describeEntries entries) ++ "\x7d"

/-- The items of a list, as they appear in a message. -/
def describeItems : List Value → List String
  | [] => []
  | item :: rest => item.describe :: describeItems rest

/-- The entries of a table, as they appear in a message. -/
def describeEntries : List (String × Value) → List String
  | [] => []
  | (name, value) :: rest =>
    (Text.quoted name ++ ": " ++ value.describe) :: describeEntries rest

end

/-- A value as it appears in a message; a text stands for itself. -/
def shown : Value → String
  | text value => value
  | other => other.describe

end Value

end RatingFactors.Configuration
