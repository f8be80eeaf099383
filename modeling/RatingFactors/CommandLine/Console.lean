import RatingFactors.Attempt
import RatingFactors.Files

/-!
# Running a command

A command reads and writes a tree of files and prints lines. It ends well, or
with a failure that it reports itself, or at once because its arguments are
wrong.
-/

namespace RatingFactors.CommandLine

/-- What a command works on. -/
structure Console (κ : Type) where
  files : Files κ
  printed : List String

/-- How a command has ended. -/
structure Ending (κ : Type) where
  /-- Zero if the command ended well, one after a failure, two if its arguments
  were wrong. -/
  status : Nat
  printed : List String
  files : Files κ

namespace Console

variable {κ : Type}

/-- Prints lines. -/
def say (lines : List String) : Attempt (Console κ) Unit :=
  modify fun c => { c with printed := c.printed ++ lines }

/-- Printing within a command. -/
def telling {β : Type} (work : Telling β) : Attempt (Console κ) β :=
  work.within fun lines c => { c with printed := c.printed ++ lines }

/-- A line of eighty marks. -/
def rule (mark : Char) : String :=
  String.ofList (List.replicate 80 mark)

/-- A title between two lines, with an empty line before and after. -/
def banner (title : String) : List String :=
  ["", rule '=', title, rule '=', ""]

/-- Runs a command; of a failure it prints what `report` says. -/
def finish (work : Attempt (Console κ) Unit) (report : Failure → List String)
    (files : Files κ) : Ending κ :=
  match work.perform ⟨files, []⟩ with
  | (.ok (), c) => ⟨0, c.printed, c.files⟩
  | (.error cause, c) => ⟨1, c.printed ++ report cause, c.files⟩

end Console

/-- The end of a command with wrong arguments, or with a call for help. -/
def Ending.early {κ : Type} (status : Nat) (lines : List String)
    (files : Files κ) : Ending κ :=
  ⟨status, lines, files⟩

end RatingFactors.CommandLine
