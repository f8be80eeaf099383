import RatingFactors.Configuration.Reading
import RatingFactors.Files

/-!
# Configurations

A configuration gives values to names. What it does not say has a usual value; a
configuration file comes before that, and what is said on the spot comes before
the file.

A file may group its entries into sections, tables inside the table. The names
of sections mean nothing: the entries of all sections and those outside any
stand side by side, and of two entries with one name the later counts.

## Main definitions

* `Configuration` — values by name.
* `Configuration.usual` — the usual values.
* `Configuration.document` — the entries of a file.
* `Configuration.flatten` — the same entries, the sections opened.
* `Configuration.load` — usual values, a file, and what is said on the spot, in
  this order.
-/

namespace RatingFactors

open RatingFactors.Configuration (Value) in
/-- Values by name. -/
structure Configuration where
  entries : List (String × Value)

namespace Configuration

/-- The value of a name, if it has one. -/
def get? (c : Configuration) (name : String) : Option Value :=
  (c.entries.find? (·.1 == name)).map (·.2)

/-- The value of a name, or the given one. -/
def get (c : Configuration) (name : String) (otherwise : Value) : Value :=
  (c.get? name).getD otherwise

/-- The value of a name; nothing if it has none. -/
def find (c : Configuration) (name : String) : Value :=
  c.get name .null

/-- Gives a value to a name, whatever it had. -/
def put (c : Configuration) (name : String) (value : Value) : Configuration :=
  ⟨putEntry c.entries name value⟩

/-- Gives values to several names, in order. -/
def putAll (c : Configuration) (entries : List (String × Value)) :
    Configuration :=
  entries.foldl (fun c (name, value) => c.put name value) c

/-- The usual values. -/
def usual : Configuration where
  entries := [
    ("latent_dim", .whole 20), ("debug", .flag false),
    ("lambda", .real 0.001), ("gamma", .real 0.001), ("step_dec", .real 0.9),
    ("min_val", .real 1e-100), ("max_val", .real 1e100),
    ("max_updates", .whole 10), ("interval", .whole 0),
    ("report_every", .whole 2),
    ("engine", .text "synchronous"), ("max_iterations", .null), ("seed", .null),
    ("loader", .text "edgelist"), ("remap_target", .flag false),
    ("strict", .flag false),
    ("valid_ratio", .real 0.1), ("predict_ratio", .real 0.0),
    ("predictions", .null), ("checkpoint_dir", .null)]

/-- The entries of a file: sections are replaced by what they hold. -/
def flatten (entries : List (String × Value)) : List (String × Value) :=
  entries.flatMap fun
    | (_, .table section_) => section_
    | entry => [entry]

/-- The entries in the value of a whole file, sections and all. -/
def topLevel (v : Value) : Except Failure (List (String × Value)) :=
  match v with
  | .table entries => .ok entries
  | other => if other.isTrue then .error .notAMapping else .ok []

/-- What is said on the spot; a name without a value says nothing. -/
def said (entries : List (String × Value)) : List (String × Value) :=
  entries.filter fun (_, value) => !value.isNull

/-- The configuration made from the entries of a file and from what is said on
the spot. -/
def merged (file overrides : List (String × Value)) : Configuration :=
  (usual.putAll file).putAll (said overrides)

/-- The entries of a configuration file as they stand there, sections and
all. -/
def document {κ : Type} (files : Files κ) (path : String) :
    Except Failure (List (String × Value)) := do
  let path := Path.tidy path
  if !files.exists? path then throw (.configurationMissing path)
  topLevel (← readText (← files.readText path))

/-- The configuration made from a file, if one is named, and from what is said
on the spot. -/
def load {κ : Type} (files : Files κ) (path : Option String)
    (overrides : List (String × Value)) : Except Failure Configuration := do
  let file ← match path with
    | none => pure []
    | some path => document files path
  return merged (flatten file) overrides

end Configuration

end RatingFactors
