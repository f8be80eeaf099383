import RatingFactors.Configuration.Cursor
import RatingFactors.Configuration.Plain

/-!
# Words of a configuration

A word is written plainly, or between quotes. A plain word may go on in the next
line if that is indented far enough, and so may a quoted one; a line end inside
a word is a space, and each further line end stays.

Between single quotes a quote is written twice; between double quotes a
backslash begins an escape.

## Main definitions

* `plainWord?` — the plain word at a place.
* `singleQuoted?`, `doubleQuoted?` — the rest of a word whose opening quote has
  been passed.
-/

namespace RatingFactors.Configuration

/-- How many line ends stand at the front of a text, with the blanks around
them, and what follows. -/
def splitBreaks (isSpace : Char → Bool) : List Char → Nat × List Char
  | [] => (0, [])
  | c :: rest =>
    if isBreak c then
      let (count, rest) := splitBreaks isSpace rest
      (count + 1, rest)
    else if isSpace c then splitBreaks isSpace rest
    else (0, c :: rest)

/-- What a gap inside a word stands for, and what follows it. -/
def splitGap (isSpace : Char → Bool) (cs : List Char) : List Char × List Char :=
  let rest := cs.dropWhile isSpace
  match rest with
  | c :: _ =>
    if isBreak c then
      let (count, rest) := splitBreaks isSpace rest
      (if count = 1 then [' '] else List.replicate (count - 1) '\n', rest)
    else (cs.takeWhile isSpace, rest)
  | [] => (cs.takeWhile isSpace, rest)

/-! ## Plain words -/

/-- The characters that mean something inside brackets. -/
def isBracketSign (c : Char) : Bool :=
  [',', '[', ']', '\x7b', '\x7d'].contains c

/-- Does a plain word end before this text? Inside brackets it ends at their
signs, too. -/
def endsPlain (inBrackets : Bool) : List Char → Bool
  | [] => true
  | c :: rest =>
    endsWord c
      || (c = ':' &&
        (atWordEnd rest || (inBrackets && rest.head?.any isBracketSign)))
      || (inBrackets && (isBracketSign c || c = '?'))

/-- The part of a plain word up to the next blank, and what follows it. -/
def splitPlain (inBrackets : Bool) : List Char → List Char × List Char
  | [] => ([], [])
  | c :: rest =>
    if endsPlain inBrackets (c :: rest) then ([], c :: rest)
    else
      let (word, rest) := splitPlain inBrackets rest
      (c :: word, rest)

/-- The signs that no plain word begins with. -/
def reservedSigns : List Char :=
  ['-', '?', ':', ',', '[', ']', '\x7b', '\x7d', '#', '&', '*', '!', '|', '>',
    '\'', '"', '%', '@', Char.ofNat 0x60]

/-- Can a plain word begin here? -/
def beginsPlain (inBrackets : Bool) : List Char → Bool
  | [] => false
  | c :: rest =>
    !endsWord c &&
      (!reservedSigns.contains c
        || (!atWordEnd rest &&
          (c = '-' || (!inBrackets && (c = '?' || c = ':')))))

/-- The parts of a plain word from here on. The first argument bounds their
number. -/
def plainParts (inBrackets : Bool) (least : Int) :
    Nat → Cursor → List Char → List Char × Cursor
  | 0, c, read => (read, c)
  | bound + 1, c, read =>
    let (part, rest) := splitPlain inBrackets c.rest
    if part.isEmpty then (read, c)
    else
      let read := read ++ part
      let after := c.moveTo rest
      let (gap, rest) := splitGap (· = ' ') after.rest
      let beyond := after.moveTo rest
      let goesOn :=
        !gap.isEmpty && beyond.rest.head? != some '#' && !beyond.atEnd
          && (inBrackets || least ≤ beyond.column)
      if goesOn && !endsPlain inBrackets beyond.rest then
        plainParts inBrackets least bound beyond (read ++ gap)
      else (read, after)

/-- The plain word at a place, and the place after it. A line that goes on with
the word must begin at the column `least` or further. -/
def plainWord? (inBrackets : Bool) (least : Int) (c : Cursor) :
    Option (String × Cursor) :=
  if beginsPlain inBrackets c.rest then
    let (word, after) := plainParts inBrackets least c.rest.length c []
    some (String.ofList word, after)
  else none

/-! ## Quoted words -/

/-- A blank between quotes. -/
def isQuotedSpace (c : Char) : Bool :=
  c = ' ' || c = '\t'

/-- The rest of a word between single quotes, and what follows the closing one.
The first argument bounds the number of steps. -/
def singleQuoted? : Nat → List Char → Option (List Char × List Char)
  | 0, _ => none
  | bound + 1, cs =>
    match cs with
    | [] => none
    | '\'' :: '\'' :: rest =>
      (singleQuoted? bound rest).map fun (word, rest) => ('\'' :: word, rest)
    | '\'' :: rest => some ([], rest)
    | c :: rest =>
      if endsWord c then
        let (gap, rest) := splitGap isQuotedSpace (c :: rest)
        (singleQuoted? bound rest).map fun (word, rest) => (gap ++ word, rest)
      else (singleQuoted? bound rest).map fun (word, rest) => (c :: word, rest)

/-- The characters that one letter after a backslash stands for. -/
def letterEscapes : List (Char × Nat) := [
  ('0', 0x00), ('a', 0x07), ('b', 0x08), ('t', 0x09), ('\t', 0x09), ('n', 0x0a),
  ('v', 0x0b), ('f', 0x0c), ('r', 0x0d), ('e', 0x1b), (' ', 0x20), ('"', 0x22),
  ('\\', 0x5c), ('/', 0x2f), ('N', 0x85), ('_', 0xa0), ('L', 0x2028),
  ('P', 0x2029)]

/-- How many digits in base sixteen follow a letter. -/
def escapeWidth? (c : Char) : Option Nat :=
  if c = 'x' then some 2
  else if c = 'u' then some 4
  else if c = 'U' then some 8
  else none

/-- The character that an escape stands for, and what follows; the backslash has
been passed. -/
def splitEscape? : List Char → Option (Char × List Char)
  | [] => none
  | c :: rest =>
    match letterEscapes.find? (·.1 == c) with
    | some (_, code) => some (Char.ofNat code, rest)
    | none =>
      match escapeWidth? c with
      | none => none
      | some width =>
        let digits := rest.take width
        if digits.length = width &&
            digits.all (fun d => (hexDigit? d).isSome) then
          let code := valueInBase 16 digits
          if 0x110000 ≤ code then none
          else some (Char.ofNat code, rest.drop width)
        else none

/-- The rest of a word between double quotes, and what follows the closing one.
The first argument bounds the number of steps. -/
def doubleQuoted? : Nat → List Char → Option (List Char × List Char)
  | 0, _ => none
  | bound + 1, cs =>
    match cs with
    | [] => none
    | '"' :: rest => some ([], rest)
    | '\\' :: rest =>
      if rest.head?.any isBreak then
        let (count, rest) := splitBreaks isQuotedSpace rest
        (doubleQuoted? bound rest).map fun (word, rest) =>
          (List.replicate (count - 1) '\n' ++ word, rest)
      else
        match splitEscape? rest with
        | none => none
        | some (c, rest) =>
          (doubleQuoted? bound rest).map fun (word, rest) => (c :: word, rest)
    | c :: rest =>
      if endsWord c then
        let (gap, rest) := splitGap isQuotedSpace (c :: rest)
        (doubleQuoted? bound rest).map fun (word, rest) => (gap ++ word, rest)
      else (doubleQuoted? bound rest).map fun (word, rest) => (c :: word, rest)

/-- The quoted word at a place, and the place after it. -/
def quotedWord? (c : Cursor) : Option (String × Cursor) :=
  let found := match c.rest with
    | '\'' :: rest => singleQuoted? (rest.length + 1) rest
    | '"' :: rest => doubleQuoted? (rest.length + 1) rest
    | _ => none
  found.map fun (word, rest) => (String.ofList word, c.moveTo rest)

end RatingFactors.Configuration
