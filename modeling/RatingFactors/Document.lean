import RatingFactors.Decimal.Layout

/-!
# Documents of results

A tree of named values, and its text: two spaces for each level, one entry a
line, and characters outside the basic ones as they are.
-/

namespace RatingFactors

/-- A tree of named values. -/
inductive Document
  | null
  | flag (value : Bool)
  | whole (value : Int)
  | number (value : Float)
  | text (value : String)
  | list (items : List Document)
  | object (entries : List (String × Document))

namespace Document

/-- One character inside the quotes of a document. -/
def escaped (c : Char) : List Char :=
  if c = '"' || c = '\\' then ['\\', c]
  else if c = '\n' then ['\\', 'n']
  else if c = '\r' then ['\\', 'r']
  else if c = '\t' then ['\\', 't']
  else if c.toNat = 8 then ['\\', 'b']
  else if c.toNat = 12 then ['\\', 'f']
  else if c.toNat < 0x20 then
    let digits := Nat.toDigits 16 c.toNat
    '\\' :: 'u' :: List.replicate (4 - digits.length) '0' ++ digits
  else [c]

/-- A text between quotes. -/
def quoted (s : String) : String :=
  String.ofList ('"' :: s.toList.flatMap escaped ++ ['"'])

/-- A number; what is none has a name of its own. -/
def numberText (x : Float) : String :=
  match Decimal.classify x with
  | .nan => "NaN"
  | .infinite negative => Decimal.signed negative "Infinity"
  | .finite .. => Decimal.text x

/-- Blanks at the front of a line. -/
def indent (depth : Nat) : String :=
  String.ofList (List.replicate (2 * depth) ' ')

/-- Lines between brackets, or the brackets alone. -/
def bracketed (depth : Nat) (opening closing : String) (lines : List String) :
    String :=
  if lines.isEmpty then opening ++ closing
  else
    opening ++ "\n" ++ ",\n".intercalate (lines.map (indent (depth + 1) ++ ·))
      ++ "\n" ++ indent depth ++ closing

mutual

/-- The text of a document that stands at a given depth. -/
def render (depth : Nat) : Document → String
  | null => "null"
  | flag value => if value then "true" else "false"
  | whole value => toString value
  | number value => numberText value
  | text value => quoted value
  | list items => bracketed depth "[" "]" (renderItems (depth + 1) items)
  | object entries =>
    bracketed depth "\x7b" "\x7d" (renderEntries (depth + 1) entries)

/-- The texts of the items of a list. -/
def renderItems (depth : Nat) : List Document → List String
  | [] => []
  | item :: rest => render depth item :: renderItems depth rest

/-- The texts of the entries of an object. -/
def renderEntries (depth : Nat) : List (String × Document) → List String
  | [] => []
  | (name, value) :: rest =>
    (quoted name ++ ": " ++ render depth value) :: renderEntries depth rest

end

end Document

end RatingFactors
