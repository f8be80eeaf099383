import RatingFactors.CommandLine.Prepare
import RatingFactors.CommandLine.Train

/-!
# The program

The first argument names a command, the others are its arguments. What they name
on the disk is read into a tree of files, the command runs on the tree, and what
it printed and wrote is printed and written. Saved models and figures are
written as documents. The clock of a run stands still.
-/

namespace RatingFactors.CommandLine.Disk

/-- The tree with what stands on the disk at a path: a file, or a folder with
the files in it. -/
def add (files : Files (Artifact Float)) (path : String) :
    IO (Files (Artifact Float)) := do
  let found ← try some <$> IO.FS.realPath path catch _ => pure none
  match found with
  | none => return files
  | some there =>
    let path := Path.tidy path
    let files := files.makeFolders (Path.parent path)
    if ← there.isDir then
      (← there.readDir).foldlM
        (fun files entry => do
          if ← entry.path.isDir then return files
          let content ← IO.FS.readBinFile entry.path
          return files.put (Path.join path entry.fileName) (.bytes content))
        (files.makeFolders path)
    else return files.put path (.bytes (← IO.FS.readBinFile there))

/-- The parts of an argument that can name something on the disk. -/
def namesIn (argument : String) : List String :=
  if argument.startsWith "-" then (argument.splitOn "=").drop 1 else [argument]

/-- The tree of everything that the arguments name. -/
def gather (arguments : List String) : IO (Files (Artifact Float)) :=
  ((arguments.flatMap namesIn).filter (· != "")).foldlM add Files.none

/-- Writes what stands at a path of a tree, unless the same bytes stand there
already. -/
def write (before : Files (Artifact Float)) (path : String) :
    RatingFactors.Entry (Artifact Float) → IO Unit
  | .folder => IO.FS.createDirAll path
  | .bytes content => do
    let same := match before.entry? path with
      | some (.bytes old) => old == content
      | _ => false
    if !same then IO.FS.writeBinFile path content
  | .thing content => IO.FS.writeFile path (content.document.render 0)

/-- Prints and writes what a command has left. -/
def settle (before : Files (Artifact Float))
    (ending : Ending (Artifact Float)) : IO UInt32 := do
  ending.printed.forM IO.println
  ending.files.entries.forM fun (path, entry) => write before path entry
  return ending.status.toUInt32

end RatingFactors.CommandLine.Disk

open RatingFactors RatingFactors.CommandLine

/-- Runs the command that the first argument names. -/
def main (arguments : List String) : IO UInt32 := do
  let files ← Disk.gather (arguments.drop 1)
  match arguments with
  | "train" :: rest =>
    match train rest (fun _ => 0.0) files with
    | .ok ending => Disk.settle files ending
    | .error cause => do
      IO.eprintln cause.message
      return 1
  | "prepare" :: rest => Disk.settle files (prepare rest files)
  | _ => do
    IO.eprintln trainUsage
    IO.eprintln prepareUsage
    return 2
