import RatingFactors.Configuration.Value

/-!
# Command-line arguments

A command has a fixed number of plain arguments and some options. An option
begins with two dashes and, unless it is a switch, takes a value: the next
argument, or what follows a sign of equality in the same one. Options stand
anywhere; of one that is repeated the last counts; and its name may be cut short
as long as no other option begins so. After two bare dashes all arguments are
plain.

A negative number is a value, and so is a text with a blank in it; anything else
that begins with a dash is an option, and if there is none of that name the
arguments are wrong.

## Main definitions

* `Flag`, `Command` — what a command accepts.
* `Command.read` — the arguments of a command: a call for help, a mistake, or
  the values given.
-/

namespace RatingFactors.CommandLine

open RatingFactors.Configuration (Value)

/-- The values that an option takes. -/
inductive Shape
  /-- No value; the option is a switch. -/
  | switch
  | text
  | whole
  | real
  /-- One of some words. -/
  | choice (words : List String)
deriving Repr

/-- An option: how it is written, the name under which its value is kept, and
its values. -/
structure Flag where
  written : String
  name : String
  shape : Shape
deriving Repr

/-- The option that calls for help, written in full. -/
def helpOption : String := "--help"

/-- The option that calls for help, written with one letter; more letters may
follow. -/
def helpLetter : String := "-h"

/-- What a command accepts. -/
structure Command where
  /-- The names of its plain arguments. -/
  plain : List String
  options : List Flag
deriving Repr

/-- The values given to a command. -/
structure Given where
  plain : List String := []
  values : List (String × Value) := []

/-- What arguments come to. -/
inductive Reading
  | help
  | mistake
  | given (given : Given)

namespace Given

/-- The value given for an option; nothing if there is none. -/
def find (g : Given) (name : String) : Value :=
  ((g.values.find? (·.1 == name)).map (·.2)).getD .null

/-- The text given for an option. -/
def text? (g : Given) (name : String) : Option String :=
  match g.find name with
  | .text s => some s
  | _ => none

/-- Is a switch on? -/
def isOn (g : Given) (name : String) : Bool :=
  (g.find name).isTrue

/-- Puts the value of an option in place of an earlier one. -/
def put (g : Given) (name : String) (value : Value) : Given :=
  { g with values := g.values.filter (·.1 != name) ++ [(name, value)] }

end Given

/-- What an argument is. -/
inductive Token
  /-- A plain argument, or a value. -/
  | plain (text : String)
  | help
  /-- An option, perhaps with the value that follows its sign of equality. -/
  | option (flag : Flag) (attached : Option String)
  /-- Two bare dashes. -/
  | divider
  /-- An option that there is not. -/
  | unknown
  /-- An option with a value that it does not take. -/
  | overfull
  /-- A name cut so short that several options begin so. -/
  | ambiguous

/-- Is the text a negative number as it may be given as a value? -/
def isNegativeNumber (s : String) : Bool :=
  match s.toList with
  | '-' :: rest =>
    let whole := rest.takeWhile Text.isDigit
    match rest.dropWhile Text.isDigit with
    | [] => !whole.isEmpty
    | '.' :: fraction => !fraction.isEmpty && fraction.all Text.isDigit
    | _ => false
  | _ => false

/-- The text before the first sign of equality, and what follows it. -/
def splitEquality (s : String) : String × Option String :=
  let cs := s.toList
  match cs.dropWhile (· ≠ '=') with
  | _ :: value =>
    (String.ofList (cs.takeWhile (· ≠ '=')), some (String.ofList value))
  | [] => (s, none)

namespace Command

/-- The options in full, with what each means; no option means help. -/
def flags (c : Command) : List (String × Option Flag) :=
  (helpOption, none) :: c.options.map fun flag => (flag.written, some flag)

/-- The options that a name cut short may mean. -/
def abbreviated (c : Command) (start : String) : List (String × Option Flag) :=
  c.flags.filter fun (written, _) => start.isPrefixOf written

/-- The token for an option that has been recognised. -/
def tokenFor (flag : Option Flag) (attached : Option String) : Token :=
  match flag with
  | none => if attached.isNone then .help else .overfull
  | some flag => .option flag attached

/-- What an argument is that begins with a dash and names no option. -/
def unnamed (argument : String) : Token :=
  if isNegativeNumber argument || argument.contains ' ' then .plain argument
  else .unknown

/-- What an argument that begins with two dashes is. -/
def dashed (c : Command) (argument : String) : Token :=
  let (start, attached) := splitEquality argument
  match c.flags.find? (·.1 == argument), c.flags.find? (·.1 == start) with
  | some (_, flag), _ => tokenFor flag none
  | none, some (_, flag) => tokenFor flag attached
  | none, none =>
    match c.abbreviated start with
    | [(_, flag)] => tokenFor flag attached
    | _ :: _ :: _ => .ambiguous
    | [] => unnamed argument

/-- What an argument before the divider is. -/
def token (c : Command) (argument : String) : Token :=
  if !argument.startsWith "-" || argument == "-" then .plain argument
  else if argument == "--" then .divider
  else if argument.startsWith "--" then c.dashed argument
  else if argument.startsWith helpLetter then
    if argument.startsWith (helpLetter ++ "=") then .overfull else .help
  else unnamed argument

/-- The value that a text gives an option. -/
def valueOf? (shape : Shape) (text : String) : Option Value :=
  match shape with
  | .switch => none
  | .text => some (.text text)
  | .whole => (Decimal.wholeOfText? text).map Value.whole
  | .real => (Decimal.doubleOfText? text).map Value.real
  | .choice words => if words.contains text then some (.text text) else none

/-- All arguments have been read: there must be as many plain ones as the
command has. -/
def complete (c : Command) (g : Given) : Reading :=
  if g.plain.length = c.plain.length then .given g else .mistake

/-- Reads arguments from left to right, after those that have been read. An
option that there is not is a mistake unless a call for help follows; any other
mistake ends the reading. The divider must stand beside a plain argument. -/
def readFrom (c : Command) (g : Given) : List String → Reading
  | [] => c.complete g
  | argument :: rest =>
    match c.token argument with
    | .overfull | .ambiguous => .mistake
    | .unknown =>
      match c.readFrom g rest with
      | .help => .help
      | _ => .mistake
    | .help => .help
    | .plain text =>
      let g := { g with plain := g.plain ++ [text] }
      if rest == ["--"] then c.complete g else c.readFrom g rest
    | .divider =>
      if rest.isEmpty then .mistake
      else c.complete { g with plain := g.plain ++ rest }
    | .option flag attached =>
      match flag.shape, attached with
      | .switch, none => c.readFrom (g.put flag.name (.flag true)) rest
      | .switch, some _ => .mistake
      | shape, some text =>
        match valueOf? shape text with
        | some value => c.readFrom (g.put flag.name value) rest
        | none => .mistake
      | shape, none =>
        match rest with
        | [] => .mistake
        | next :: rest =>
          match c.token next with
          | .plain text =>
            match valueOf? shape text with
            | some value => c.readFrom (g.put flag.name value) rest
            | none => .mistake
          | _ => .mistake

/-- Is the argument a name cut too short? -/
def isAmbiguous (c : Command) (argument : String) : Bool :=
  match c.token argument with
  | .ambiguous => true
  | _ => false

/-- The arguments of a command. Names cut too short are found before anything
else. -/
def read (c : Command) (arguments : List String) : Reading :=
  if (arguments.takeWhile (· != "--")).any c.isAmbiguous then .mistake
  else c.readFrom {} arguments

end Command

end RatingFactors.CommandLine
