import RatingFactors.Text.Lines

/-!
# Places in a configuration text

Reading a configuration means knowing where a word stands: its column decides
what it belongs to, and its line whether it can be a key. A cursor is the text
that is left, with its line and column.

Between words there may be spaces, line ends, and comments from `#` to the end
of the line; a tabulator is none of these.
-/

namespace RatingFactors.Configuration

/-- Does the character end a line? -/
def isBreak (c : Char) : Bool :=
  c = '\n' || c = '\u0085' || c = '\u2028' || c = '\u2029'

/-- Does the character end a word, by being blank or ending the line? -/
def endsWord (c : Char) : Bool :=
  c = ' ' || c = '\t' || isBreak c

/-- Is there no text left, or does it begin with the end of a word? -/
def atWordEnd : List Char → Bool
  | [] => true
  | c :: _ => endsWord c

/-- May the character stand in a configuration at all? -/
def isAllowed (c : Char) : Bool :=
  let code := c.toNat
  c = '\t' || c = '\n' || code = 0x85 || (0x20 ≤ code && code ≤ 0x7e)
    || (0xa0 ≤ code && code ≤ 0xd7ff) || (0xe000 ≤ code && code ≤ 0xfffd)
    || 0x10000 ≤ code

/-- A place in a text: what is left, and where that is. -/
structure Cursor where
  rest : List Char
  line : Nat
  column : Nat
deriving Repr

namespace Cursor

/-- The place one character further. -/
def next (c : Cursor) : Cursor :=
  match c.rest with
  | [] => c
  | x :: rest =>
    if isBreak x then ⟨rest, c.line + 1, 0⟩ else ⟨rest, c.line, c.column + 1⟩

/-- The place a number of characters further. -/
def skip : Nat → Cursor → Cursor
  | 0, c => c
  | n + 1, c => skip n c.next

/-- The place where only the given end of the text is left. -/
def moveTo (c : Cursor) (rest : List Char) : Cursor :=
  c.skip (c.rest.length - rest.length)

/-- How many characters of a text are gap: spaces, line ends and comments. -/
def gapLength : Bool → List Char → Nat
  | _, [] => 0
  | inComment, c :: rest =>
    if isBreak c then 1 + gapLength false rest
    else if inComment then 1 + gapLength true rest
    else if c = ' ' then 1 + gapLength false rest
    else if c = '#' then 1 + gapLength true rest
    else 0

/-- The place of the next word. -/
def nextWord (c : Cursor) : Cursor :=
  c.skip (gapLength false c.rest)

/-- Does the given mark stand here at the front of a line, on its own? -/
def atMark (c : Cursor) (mark : String) : Bool :=
  c.column == 0 && mark.toList.isPrefixOf c.rest &&
    atWordEnd (c.rest.drop mark.length)

/-- Is this the end of the document? -/
def atEnd (c : Cursor) : Bool :=
  c.rest.isEmpty || c.atMark "---" || c.atMark "..."

/-- Does the given character stand here as a word of its own? -/
def atSign (c : Cursor) (sign : Char) : Bool :=
  match c.rest with
  | x :: rest => x = sign && atWordEnd rest
  | [] => false

end Cursor

end RatingFactors.Configuration
