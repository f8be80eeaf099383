import RatingFactors.Files
import RatingFactors.Ratings.EdgeLine
import RatingFactors.Ratings.Identifiers
import RatingFactors.Ratings.Table
import RatingFactors.Text.Lines

/-!
# Edge files

Ratings as text files with an edge on each line. The end of a file's name says
what its ratings are used for, so a table is a folder of files: `name.train`,
`name.validate`, `name.predict`.

A line that is no edge is skipped and counted, unless the reader is strict; then
it ends the reading. Blank lines are neither.

## Main definitions

* `readEdges` — the edges of one file.
* `loadEdges` — the ratings of a file or of all files of a folder.
* `writeEdges` — a table written as one file for each use that occurs.
-/

namespace RatingFactors.Ratings

/-- The edges of one file, and how many lines were skipped. -/
structure EdgeFile where
  edges : List EdgeLine
  skipped : Nat
deriving Repr

/-- The edges on the given lines, the first of which has the given number. -/
def readEdges (strict : Bool) (path : String) : Nat → List (List Char) →
    Except Failure EdgeFile
  | _, [] => .ok ⟨[], 0⟩
  | number, line :: rest =>
    if line.all Text.isBlank then readEdges strict path (number + 1) rest
    else
      match EdgeLine.parse? line with
      | some edge => do
        let others ← readEdges strict path (number + 1) rest
        return { others with edges := edge :: others.edges }
      | none => do
        if strict then throw (.malformedLine path number (String.ofList line))
        let others ← readEdges strict path (number + 1) rest
        return { others with skipped := others.skipped + 1 }

/-- A table with a note of how many lines were skipped. -/
structure Loaded where
  rows : List (Rating Float)
  skipped : Nat
deriving Repr

/-- The paths of the edge files at a path: the file itself, or the files of a
folder but for hidden ones. -/
def edgePaths {κ : Type} (files : Files κ) (path : String) :
    Except Failure (List String) :=
  if !files.exists? path then .error (.dataMissing path)
  else if files.isFolder path then
    let paths :=
      (files.filesIn path).filter fun p => !(Path.name p).startsWith "."
    if paths.isEmpty then .error (.noEdgeFiles path) else .ok paths
  else .ok [path]

/-- Reads one edge file and prints how much was in it. -/
def loadFile {κ : Type} (files : Files κ) (strict : Bool) (path : String) :
    Telling (Role × EdgeFile) := do
  let role := Role.ofFileName (Path.name path)
  let text ← Attempt.lift (files.readText path)
  let file ← Attempt.lift (readEdges strict path 1 (Text.lines text))
  let shown := if file.edges.isEmpty then "-" else role.label
  tell [s!"  {Path.name path}: {file.edges.length} ребер ({shown})"]
  return (role, file)

/-- The ratings of a file or of all files of a folder, with moved columns if
asked to. -/
def loadEdges {κ : Type} (files : Files κ) (moved strict : Bool)
    (path : String) : Telling Loaded := do
  let paths ← Attempt.lift (edgePaths files path)
  let found ← Attempt.collect paths (loadFile files strict)
  let skipped := found.foldr (fun (_, file) count => file.skipped + count) 0
  if 0 < skipped then tell [s!"Пропущено некорректных строк: {skipped}"]
  let sources ← Attempt.lift <|
    identifiers (found.map fun (_, file) => file.edges.map (·.source))
  let targets ← Attempt.lift <|
    identifiers (found.map fun (_, file) => file.edges.map (·.target))
  let rest :=
    found.flatMap fun (role, file) => file.edges.map fun e => (e.value, role)
  let rows := List.zipWith
    (fun (source, target) (value, role) =>
      { source, target, value, role : Rating Float })
    (sources.zip targets) rest
  return ⟨if moved then moveColumns rows else rows, skipped⟩

/-- A row as a line of an edge file. -/
def edgeText {α : Type} [Scalar α] (r : Rating α) : String :=
  toString r.source.toInt ++ "\t" ++ toString r.target.toInt ++ "\t" ++
    Scalar.cell r.value ++ "\n"

/-- The path of the edge file for a role. -/
def edgePath (folder stem : String) (role : Role) : String :=
  Path.join folder (stem ++ "." ++ role.label)

/-- What has been written: the tree of files, the path for each role, and the
lines to print. -/
structure Written (κ : Type) where
  files : Files κ
  paths : List (Role × String)
  lines : List String

/-- Writes the rows of one role, if there are any. -/
def writeRole {κ α : Type} [Scalar α] (folder stem : String)
    (rows : List (Rating α)) (w : Written κ) (role : Role) : Written κ :=
  let part := ofRole role rows
  if part.isEmpty then w
  else
    let path := edgePath folder stem role
    { files := w.files.writeText path (String.join (part.map edgeText))
      paths := w.paths ++ [(role, path)]
      lines := w.lines ++ [s!"Сохранено {part.length} ребер: {path}"] }

/-- Writes a table as edge files into a folder, which is made if it is not
there. -/
def writeEdges {κ α : Type} [Scalar α] (files : Files κ) (folder stem : String)
    (rows : List (Rating α)) : Written κ :=
  Role.known.foldl (writeRole folder stem rows)
    ⟨files.makeFolders (Path.tidy folder), [], []⟩

end RatingFactors.Ratings
