import RatingFactors.Ratings.EdgeList
import RatingFactors.Ratings.RatingsFile

/-!
# Sources of ratings

The kinds of sources from which a table can be loaded, by name, and the options
that each kind has. An option that is not given has a usual value; one that the
kind does not have is refused.

## Main definitions

* `SourceKind` — edge files or a ratings file.
* `Source`, `Source.make` — a kind with its options.
* `Source.load` — the table that a source gives.
-/

namespace RatingFactors.Ratings

open RatingFactors.Configuration (Value)

/-- The kinds of sources. -/
inductive SourceKind
  | edgeFiles
  | ratingsFile
deriving DecidableEq, Repr

namespace SourceKind

/-- The names of the kinds. -/
def names : List (String × SourceKind) := [
  ("edgelist", edgeFiles), ("edge_list", edgeFiles),
  ("movie_lens", ratingsFile), ("movielens", ratingsFile)]

/-- The kind with a given name. -/
def ofName (name : String) : Except Failure SourceKind :=
  match names.find? (·.1 == name) with
  | some (_, kind) => .ok kind
  | none => .error (.unknownSource name (names.map (·.1)))

/-- The options of a kind with their usual values. -/
def options : SourceKind → List (String × Value)
  | edgeFiles => [("remap_target", .flag false), ("strict", .flag false)]
  | ratingsFile => [
      ("remap_target", .flag true), ("valid_ratio", .real 0.1),
      ("predict_ratio", .real 0.0), ("seed", .whole 42)]

end SourceKind

/-- A kind of source with all its options. -/
structure Source where
  kind : SourceKind
  options : List (String × Value)

namespace Source

/-- The value of an option. -/
def option (s : Source) (name : String) : Value :=
  ((s.options.find? (·.1 == name)).map (·.2)).getD .null

/-- The shares that a ratings file is to be split by. -/
def shares (s : Source) : Except Failure Shares :=
  Shares.ofValues (s.option "valid_ratio") (s.option "predict_ratio")

/-- A source of a named kind with given options; the others have their usual
values. -/
def make (name : String) (given : List (String × Value)) :
    Except Failure Source := do
  let kind ← SourceKind.ofName name
  let known := kind.options
  match given.find? fun (option, _) => !known.any (·.1 == option) with
  | some (option, _) => throw (.unknownOption option)
  | none => pure ()
  let options := known.map fun (option, usual) =>
    (option, ((given.find? (·.1 == option)).map (·.2)).getD usual)
  let source : Source := ⟨kind, options⟩
  if kind = .ratingsFile then discard source.shares
  return source

/-- The seed that uses are drawn by. -/
def seed (s : Source) : Except Failure (Option Int) :=
  match s.option "seed" with
  | .null => .ok none
  | .flag value => .ok (some (if value then 1 else 0))
  | .whole value => .ok (some value)
  | _ => .error .wrongKind

/-- The table that a source gives for a path. -/
def load {κ : Type} (s : Source) (files : Files κ) (path : String) :
    Telling Loaded := do
  let path := Path.tidy path
  let moved := (s.option "remap_target").isTrue
  match s.kind with
  | .edgeFiles => loadEdges files moved (s.option "strict").isTrue path
  | .ratingsFile =>
    let shares ← Attempt.lift s.shares
    let seed ← Attempt.lift s.seed
    return ⟨← loadRatings files moved shares seed path, 0⟩

end Source

end RatingFactors.Ratings
