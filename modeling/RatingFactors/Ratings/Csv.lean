import RatingFactors.Failure
import RatingFactors.Text.Lines

/-!
# Comma-separated records

A record is a line of fields with commas between them. A field that begins with
a double quote goes on to the closing one, and may hold commas and line ends;
inside it a quote is written twice. A quote further inside a field is a
character like any other. Lines that are empty or hold only blanks are no
records.

The first record names the columns. If the first row has more fields than there
are names, its surplus fields at the front are row labels, and so are as many
fields of every other row. A later row must not have more fields than the first;
missing fields at the end are empty.

## Main definitions

* `Csv.records` — the records of a text.
* `Csv.Table`, `Csv.Table.ofText` — named columns of fields.
-/

namespace RatingFactors.Csv

/-- Where in a record the next character stands. -/
inductive Place
  /-- Nothing but blanks has been seen of the line. -/
  | lineStart
  | fieldStart
  | inField
  | inQuotes
  /-- After a quote that closes the field unless another one follows. -/
  | afterQuote
deriving DecidableEq, Repr

/-- What has been read: whole records, the fields of the current one, and the
characters of the current field, all with the latest first. -/
structure Reader where
  place : Place
  records : List (List String)
  fields : List String
  field : List Char
deriving Repr

namespace Reader

/-- Nothing has been read. -/
def fresh : Reader :=
  ⟨.lineStart, [], [], []⟩

/-- Takes one more character into the field. -/
def push (r : Reader) (place : Place) (c : Char) : Reader :=
  { r with place := place, field := c :: r.field }

/-- Ends the field. -/
def endField (r : Reader) : Reader :=
  { r with
    place := .fieldStart
    fields := String.ofList r.field.reverse :: r.fields
    field := [] }

/-- Ends the record. -/
def endRecord (r : Reader) : Reader :=
  let r := r.endField
  { r with
    place := .lineStart, records := r.fields.reverse :: r.records,
    fields := [] }

/-- A character outside quotes. -/
def plain (r : Reader) (c : Char) : Reader :=
  if c = '\n' then r.endRecord
  else if c = ',' then r.endField
  else r.push .inField c

/-- Reads one character. -/
def step (r : Reader) (c : Char) : Reader :=
  match r.place with
  | .lineStart =>
    if c = '\n' then { r with field := [] }
    else if c = ' ' || c = '\t' then r.push .lineStart c
    else if c = '"' && r.field.isEmpty then { r with place := .inQuotes }
    else r.plain c
  | .fieldStart => if c = '"' then { r with place := .inQuotes } else r.plain c
  | .inField => r.plain c
  | .inQuotes =>
    if c = '"' then { r with place := .afterQuote } else r.push .inQuotes c
  | .afterQuote => if c = '"' then r.push .inQuotes c else r.plain c

/-- The records, once the text is at its end. -/
def finish (r : Reader) : Except Failure (List (List String)) :=
  match r.place with
  | .lineStart => .ok r.records.reverse
  | .inQuotes => .error .openQuote
  | _ => .ok r.endRecord.records.reverse

end Reader

/-- The records of a text. -/
def records (cs : List Char) : Except Failure (List (List String)) :=
  (cs.foldl Reader.step Reader.fresh).finish

/-- The names of columns, made different from each other: an empty one is named
by its number, a repeated one gets a number of its own. -/
def columnNames (header : List String) : List String :=
  (List.range header.length).map fun n =>
    let given := header.getD n ""
    let name := if given == "" then s!"Unnamed: {n}" else given
    let before := (header.take n).count given
    if before = 0 || given == "" then name else s!"{name}.{before}"

/-- Named columns of fields. -/
structure Table where
  names : List String
  rows : List (List String)
deriving Repr

namespace Table

/-- The table that records form. -/
def ofRecords : List (List String) → Except Failure Table
  | [] => .error .emptyTable
  | header :: rows =>
    let width := match rows with
      | [] => header.length
      | first :: _ => Nat.max header.length first.length
    if rows.any fun row => width < row.length then .error .raggedRow
    else
      let padded :=
        rows.map fun row => row ++ List.replicate (width - row.length) ""
      .ok ⟨columnNames header,
        padded.map fun row => row.drop (width - header.length)⟩

/-- The table that a text holds. A mark of byte order at its front is passed
over. -/
def ofText (text : String) : Except Failure Table := do
  let cs := Text.unifyNewlines text.toList
  let cs := if cs.head? == some '\ufeff' then cs.drop 1 else cs
  ofRecords (← records cs)

/-- The fields of a column. -/
def column (t : Table) (place : Nat) : List String :=
  t.rows.map fun row => row.getD place ""

end Table

end RatingFactors.Csv
