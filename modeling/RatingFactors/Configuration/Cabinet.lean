import RatingFactors.Attempt
import RatingFactors.Configuration.Basic

/-!
# Configurations that change in place

A configuration can be changed where it stands: a name gets another value, and
whoever holds the configuration sees it. The configurations of a program stand
in a cabinet, each under the number it was put there with. Under number 0 stand
the usual values. Loading begins with a copy of them and writes the entries of
the file into the copy, one after the other, and then what is said on the spot.

## Main definitions

* `Cabinet.start` — the cabinet before anything is loaded.
* `Cabinet.copy`, `Cabinet.assign` — a new configuration, and a changed one.
* `Cabinet.enter` — writes an entry of a file into a configuration; a section is
  opened.
* `Cabinet.load` — puts a loaded configuration into the cabinet.
-/

namespace RatingFactors

open RatingFactors.Configuration (Value)

/-- The configurations of a program, by number. -/
abbrev Cabinet : Type :=
  Array Configuration

namespace Cabinet

/-- The cabinet before anything is loaded: the usual values. -/
def start : Cabinet :=
  #[Configuration.usual]

/-- The configuration under a number. -/
def configuration (cabinet : Cabinet) (number : Nat) : Configuration :=
  cabinet.getD number ⟨[]⟩

/-- Puts a copy of a configuration into the cabinet: the number it stands
under. -/
def copy (number : Nat) : Attempt Cabinet Nat := do
  let cabinet ← get
  set (cabinet.push (cabinet.configuration number))
  return cabinet.size

/-- Gives a value to a name, in place. -/
def assign (number : Nat) (name : String) (value : Value) :
    Attempt Cabinet Unit :=
  modify fun cabinet => cabinet.modify number (·.put name value)

/-- Gives values to several names, in place and in order. -/
def assignAll (number : Nat) (entries : List (String × Value)) :
    Attempt Cabinet Unit :=
  Attempt.each entries fun (name, value) => assign number name value

/-- Writes an entry of a file into a configuration. Of a section only what it
holds counts. -/
def enter (number : Nat) : String × Value → Attempt Cabinet Unit
  | (_, .table section_) => assignAll number section_
  | (name, value) => assign number name value

/-- Makes a configuration from a copy of the usual values, a file, if one is
named, and what is said on the spot: the number it stands under. -/
def load {κ : Type} (files : Files κ) (path : Option String)
    (overrides : List (String × Value)) : Attempt Cabinet Nat := do
  let number ← copy 0
  let entries ← Attempt.lift (match path with
    | none => pure []
    | some path => Configuration.document files path)
  Attempt.each entries (enter number)
  assignAll number (Configuration.said overrides)
  return number

end Cabinet

end RatingFactors
