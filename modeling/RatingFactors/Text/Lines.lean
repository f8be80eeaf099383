/-!
# Lines

A text is cut after each line feed, each carriage return and each pair of the
two; whichever it was, the line ends in one line feed. A last line without an
end keeps none.
-/

namespace RatingFactors.Text

/-- Replaces every carriage return, alone or before a line feed, by a line
feed. -/
def unifyNewlines : List Char → List Char
  | [] => []
  | '\r' :: '\n' :: rest => '\n' :: unifyNewlines rest
  | '\r' :: rest => '\n' :: unifyNewlines rest
  | c :: rest => c :: unifyNewlines rest

/-- Cuts after every line feed; the pieces together are the text. -/
def cutLines : List Char → List (List Char)
  | [] => []
  | c :: rest =>
    if c = '\n' then [c] :: cutLines rest
    else match cutLines rest with
      | [] => [[c]]
      | line :: lines => (c :: line) :: lines

/-- Cutting loses nothing. -/
theorem flatten_cutLines (cs : List Char) : (cutLines cs).flatten = cs := by
  induction cs with
  | nil => rfl
  | cons c rest ih =>
    unfold cutLines
    split
    · simp [ih]
    · split <;> rename_i h <;> simp [h] at ih <;> simp [← ih]

/-- The lines of a text, each with its line feed. -/
def lines (s : String) : List (List Char) :=
  cutLines (unifyNewlines s.toList)

/-- The lines of what was printed: the pieces between line feeds, without an
empty last one. -/
def printedLines (s : String) : List String :=
  (cutLines s.toList).map fun line => String.ofList (line.filter (· != '\n'))

end RatingFactors.Text
