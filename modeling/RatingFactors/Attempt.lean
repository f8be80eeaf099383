import RatingFactors.Failure

/-!
# Attempts

Work that can fail, on a state that stays: whether the work succeeds or not, it
leaves the state that it has reached. Nothing is rolled back.

Work whose state is what has been printed so far is a `Telling`. What was
printed before a failure has been printed.

## Main definitions

* `Attempt` — work on a state that may fail.
* `Attempt.each`, `Attempt.collect` — something done for each element, in order.
* `Telling`, `tell` — work that prints.
-/

namespace RatingFactors

/-- Work on a state that may fail and leaves the state it has reached. -/
abbrev Attempt (s β : Type) : Type :=
  ExceptT Failure (StateM s) β

namespace Attempt

variable {s β : Type}

/-- A computation that does not need the state. -/
def lift : Except Failure β → Attempt s β
  | .ok result => pure result
  | .error cause => throw cause

/-- Runs the work: its result, and the state it leaves. -/
def perform (work : Attempt s β) (state : s) : Except Failure β × s :=
  StateT.run (ExceptT.run work) state

/-- Does something for each element, in order, until one fails. -/
def each {ι : Type} (items : List ι) (work : ι → Attempt s Unit) :
    Attempt s Unit :=
  match items with
  | [] => pure ()
  | i :: rest => do
    work i
    each rest work

/-- The results of something done for each element, in order, until one
fails. -/
def collect {ι : Type} (items : List ι) (work : ι → Attempt s β) :
    Attempt s (List β) :=
  match items with
  | [] => pure []
  | i :: rest => do
    let first ← work i
    let others ← collect rest work
    return first :: others

end Attempt

/-- Work that may fail and prints lines. -/
abbrev Telling (β : Type) : Type :=
  Attempt (List String) β

/-- Prints lines. -/
def tell (lines : List String) : Telling Unit :=
  modify (· ++ lines)

/-- Work that prints, done inside work on a state that keeps what is printed. -/
def Telling.within {s β : Type} (work : Telling β)
    (print : List String → s → s) : Attempt s β := fun state =>
  let (answer, lines) := work.perform []
  (answer, print lines state)

end RatingFactors
