import RatingFactors.Failure

/-!
# A tree of files

Files as a value: which folders there are, and what each file holds. Reading and
writing are then ordinary functions, and a whole command can be run without
touching a disk.

Besides bytes a file can hold a thing of another kind `κ`, kept whole: a saved
model, a figure.

Paths are texts with `/` between their parts. `tidy` gives each path its one
usual spelling, and every operation expects that spelling.
-/

namespace RatingFactors

namespace Path

/-- The parts of a path between its slashes; empty parts and single points mean
nothing. -/
def parts (path : String) : List String :=
  ((path.toList.splitOn '/').map String.ofList).filter
    fun part => part != "" && part != "."

/-- The path with the given parts. -/
def ofParts (absolute : Bool) (parts : List String) : String :=
  let joined := "/".intercalate parts
  if absolute then "/" ++ joined else if parts.isEmpty then "." else joined

/-- The usual spelling of a path. -/
def tidy (path : String) : String :=
  ofParts (path.startsWith "/") (parts path)

/-- A path below another; an absolute one stands for itself. -/
def join (folder name : String) : String :=
  if name.startsWith "/" then tidy name else tidy (tidy folder ++ "/" ++ name)

/-- The folder in which a path lies. -/
def parent (path : String) : String :=
  ofParts (path.startsWith "/") (parts path).dropLast

/-- The last part of a path. -/
def name (path : String) : String :=
  ((parts path).getLast?).getD ""

end Path

/-- What stands at a path. -/
inductive Entry (κ : Type)
  | folder
  | bytes (content : ByteArray)
  | thing (content : κ)

/-- A tree of files: what stands at each path. -/
structure Files (κ : Type) where
  entries : List (String × Entry κ)

namespace Files

variable {κ : Type}

/-- The tree with nothing in it. -/
def none : Files κ :=
  ⟨[]⟩

/-- What stands at a path. The folders where absolute and relative paths begin
are always there. -/
def entry? (files : Files κ) (path : String) : Option (Entry κ) :=
  if path == "/" || path == "." then some .folder
  else (files.entries.find? (·.1 == path)).map (·.2)

/-- Puts something at a path, in place of what stood there. -/
def put (files : Files κ) (path : String) (entry : Entry κ) : Files κ :=
  ⟨files.entries.filter (·.1 != path) ++ [(path, entry)]⟩

/-- Does anything stand at the path? -/
def exists? (files : Files κ) (path : String) : Bool :=
  (files.entry? path).isSome

/-- Is the path a folder? -/
def isFolder (files : Files κ) (path : String) : Bool :=
  match files.entry? path with
  | some .folder => true
  | _ => false

/-- All beginnings of a path that can be folders, the shortest first. -/
def ancestors (path : String) : List String :=
  let absolute := path.startsWith "/"
  let all := Path.parts path
  (List.range all.length).map fun k => Path.ofParts absolute (all.take (k + 1))

/-- Makes a folder and those that it lies in; what is there stays. -/
def makeFolders (files : Files κ) (path : String) : Files κ :=
  (ancestors path).foldl
    (fun files p => if files.exists? p then files else files.put p .folder)
    files

/-- Writes a text. -/
def writeText (files : Files κ) (path text : String) : Files κ :=
  files.put path (.bytes text.toUTF8)

/-- The text of a file. -/
def readText (files : Files κ) (path : String) : Except Failure String :=
  match files.entry? path with
  | some (.bytes content) =>
    match String.fromUTF8? content with
    | some text => .ok text
    | Option.none => .error .undecodable
  | some .folder => .error (.isDirectory path)
  | some (.thing _) => .error .undecodable
  | Option.none => .error (.fileMissing path)

/-- The paths of the files in a folder, in the order of their names. -/
def filesIn (files : Files κ) (folder : String) : List String :=
  let inside := files.entries.filter fun (path, entry) =>
    Path.parent path == folder && path != folder &&
      match entry with
      | .folder => false
      | _ => true
  (inside.map (·.1)).mergeSort fun a b => decide (a ≤ b)

/-- What stands in a tree at paths where an earlier one had nothing, folders
left out. -/
def since (files before : Files κ) : List (String × Entry κ) :=
  files.entries.filter fun (path, entry) =>
    !before.exists? path &&
      match entry with
      | .folder => false
      | _ => true

end Files

end RatingFactors
