import RatingFactors.Configuration.Word

/-!
# Reading a configuration text

A configuration is written as nested tables and lists. Outside brackets the
columns show what belongs together: the entries of a table begin at one column,
`key: value`, and so do the items of a list, `- item`; what stands further to
the right belongs to the entry or item before it. Inside brackets commas do
that.

Whatever breaks the rules makes the whole text malformed; there is no partial
result.

## Main definitions

* `Value.put` — an entry in a table; of two with one name the later counts.
* `block`, `blockTable`, `blockList` — nested values told apart by columns.
* `bracket`, `bracketTable`, `bracketList` — nested values told apart by commas.
* `readText` — the value of a whole text.

The functions recurse with a bound on the number of steps, since a step may end
a block without using up any text. Every step that does not, uses up at least
one character, and blocks nest at most as deeply as the text is long, so
`readText` gives them a bound that is never met.
-/

namespace RatingFactors.Configuration

/-- A value read at a place, and the place after it. -/
abbrev Found : Type := Except Failure (Value × Cursor)

/-- The failure of all reading. -/
def malformed {β : Type} : Except Failure β :=
  .error .malformedConfiguration

/-- The entries with one more; of two with one name the later counts, at the
earlier's place. -/
def putEntry (entries : List (String × Value)) (name : String) (value : Value) :
    List (String × Value) :=
  if entries.any (·.1 == name) then
    entries.map fun entry => if entry.1 == name then (name, value) else entry
  else entries ++ [(name, value)]

/-- Words that ask for something that is not understood. -/
def refusedWords : List String := ["=", "<<"]

/-- The name that a value gives to an entry. Lists and tables give none. -/
def nameOf : Value → Except Failure String
  | .list _ | .table _ => malformed
  | value => .ok value.shown

/-- A word, plain or quoted, that stands at a place. -/
def word (inBrackets : Bool) (least : Int) (c : Cursor) : Found :=
  match quotedWord? c with
  | some (text, after) => .ok (.text text, after)
  | none =>
    match plainWord? inBrackets least c with
    | some (text, after) =>
      if refusedWords.contains text then malformed
      else .ok (.ofPlain text, after)
    | none => malformed

/-- Does a colon follow on the same line, so that what ended here was a key?
Inside brackets the colon need not be a word of its own. -/
def isKey (inBrackets : Bool) (begun : Nat) (after : Cursor) : Bool :=
  let c := after.nextWord
  after.line == begun && c.line == begun &&
    if inBrackets then c.rest.head? == some ':' else c.atSign ':'

/-! ## Inside brackets -/

mutual

/-- A value inside brackets. -/
def bracket : Nat → Cursor → Found
  | 0, _ => malformed
  | bound + 1, c =>
    match c.rest with
    | '[' :: _ => bracketList bound [] c.next
    | '\x7b' :: _ => bracketTable bound [] c.next
    | _ => word true 0 c

/-- The items of a list in brackets from here on. -/
def bracketList : Nat → List Value → Cursor → Found
  | 0, _, _ => malformed
  | bound + 1, items, c => do
    let c := c.nextWord
    if c.rest.head? == some ']' then return (.list items, c.next)
    let (first, after) ← bracket bound c
    let (item, after) ←
      if isKey true c.line after then do
        let name ← nameOf first
        let (value, after) ← bracketValue bound after.nextWord.next
        pure (Value.table [(name, value)], after)
      else pure (first, after)
    let after := after.nextWord
    match after.rest with
    | ',' :: _ => bracketList bound (items ++ [item]) after.next
    | ']' :: _ => return (.list (items ++ [item]), after.next)
    | _ => malformed

/-- The entries of a table in brackets from here on. -/
def bracketTable : Nat → List (String × Value) → Cursor → Found
  | 0, _, _ => malformed
  | bound + 1, entries, c => do
    let c := c.nextWord
    if c.rest.head? == some '\x7d' then return (.table entries, c.next)
    let (key, after) ← bracket bound c
    let name ← nameOf key
    let (value, after) ←
      if isKey true c.line after then bracketValue bound after.nextWord.next
      else pure (Value.null, after)
    let entries := putEntry entries name value
    let after := after.nextWord
    match after.rest with
    | ',' :: _ => bracketTable bound entries after.next
    | '\x7d' :: _ => return (.table entries, after.next)
    | _ => malformed

/-- The value after a colon inside brackets; there may be none. -/
def bracketValue : Nat → Cursor → Found
  | 0, _ => malformed
  | bound + 1, c =>
    let c := c.nextWord
    match c.rest with
    | ',' :: _ | ']' :: _ | '\x7d' :: _ => .ok (.null, c)
    | _ => bracket bound c

end

/-! ## Outside brackets -/

/-- A value that needs no columns: something in brackets, or a word. -/
def inline (bound : Nat) (least : Int) (c : Cursor) : Found :=
  match c.rest with
  | '[' :: _ | '\x7b' :: _ => bracket bound c
  | _ => word false least c

mutual

/-- The value that stands further to the right than the column `indent`. With
`nested` unset there must be no table or list on the line where the search
begins; with `listAllowed` set a list may begin at the column itself. -/
def block : Nat → Int → Bool → Bool → Cursor → Found
  | 0, _, _, _, _ => malformed
  | bound + 1, indent, nested, listAllowed, from_ => do
    let c := from_.nextWord
    let nested := nested || c.line != from_.line
    if c.atEnd then return (.null, c)
    if (c.column : Int) ≤ indent && c.line != from_.line then
      if listAllowed && c.column == indent && c.atSign '-' then
        return ← blockList bound c.column [] c
      return (.null, c)
    if c.atSign '-' then
      if nested then blockList bound c.column [] c else malformed
    else do
      let (value, after) ← inline bound (indent + 1) c
      if isKey false c.line after then
        if nested then blockTable bound c.column indent [] c else malformed
      else return (value, after)

/-- The entries of a table from here on; each begins at the given column. A key
that turns out to be none may go on to the right of the column `indent` only. -/
def blockTable : Nat → Nat → Int → List (String × Value) → Cursor → Found
  | 0, _, _, _, _ => malformed
  | bound + 1, column, indent, entries, c => do
    let (key, after) ← inline bound (indent + 1) c
    if !isKey false c.line after then malformed
    let name ← nameOf key
    let (value, after) ← block bound column false true after.nextWord.next
    let entries := putEntry entries name value
    let next := after.nextWord
    if next.atEnd || next.column < column then return (.table entries, next)
    if next.column == column && next.line != c.line && !next.atSign '-' then
      blockTable bound column column entries next
    else malformed

/-- The items of a list from here on; the dash of each stands at the given
column. What follows the list at its own column may still belong to the table
around it. -/
def blockList : Nat → Nat → List Value → Cursor → Found
  | 0, _, _, _ => malformed
  | bound + 1, column, items, c => do
    let (item, after) ← block bound column true false c.next
    let items := items ++ [item]
    let next := after.nextWord
    if next.atEnd || next.column < column then return (.list items, next)
    if next.column == column && next.line != c.line then
      if next.atSign '-' then blockList bound column items next
      else return (.list items, next)
    else malformed

end

/-- The value of a configuration text. A text without content has no value, and
one with more than a single document is malformed. -/
def readText (text : String) : Except Failure Value := do
  let cs := Text.unifyNewlines text.toList
  let cs := if cs.head? == some '\ufeff' then cs.drop 1 else cs
  if !cs.all isAllowed then malformed
  let bound := 4 * cs.length + 8
  let c := (Cursor.mk cs 0 0).nextWord
  let (value, after) ←
    if c.atMark "---" then block bound (-1) false false (c.skip 3)
    else block bound (-1) true false c
  let after := after.nextWord
  let after := if after.atMark "..." then (after.skip 3).nextWord else after
  if after.rest.isEmpty then return value else malformed

end RatingFactors.Configuration
