import VisiblyPushdown.Analysis

/-!
# Command-line arguments

A command line is a command, its options and one path. An option with a value takes it from the same
word, behind `=`, or from the next word, unless that looks like an option itself. A word `--` makes
all words behind it paths.

A value is checked when the next option or path is read, or at the end. An option that is not known,
an attached value that is not wanted and a second path are reported at once, before
the value that is still to be checked.
-/

namespace VisiblyPushdown.CommandLine

/-- When output is coloured. -/
inductive ColourChoice where
  | automatic
  | always
  | never
deriving DecidableEq, Repr

/-- What the command line asks for. -/
inductive Command where
  | check (grammar : String) (settings : Settings) (colour : ColourChoice)
  | dump (grammar : String) (settings : Settings) (json : Bool) (colour : ColourChoice)
  | batch (input output : String) (settings : Settings)
deriving DecidableEq, Repr

/-- Why a command line asks for nothing that can be done. Asking for help counts, too. -/
inductive ArgumentError where
  | helpForNoArguments
  | help
  | unknownCommand
  | missingPath
  | unknownArgument
  | badValue
  | badNumber
  | unwantedValue
  | repeatedOption
deriving DecidableEq, Repr

/-- The commands by their names. -/
inductive CommandName where
  | check
  | dump
  | batch
deriving DecidableEq, Repr

/-- The options of all commands. -/
inductive OptionName where
  | help
  | colour
  | json
  | output
  | maxNonterminals
  | bruteForce
  | keepContradictions
  | noSimplify
deriving DecidableEq, Repr

namespace CommandName

/-- The command with a name. -/
def ofWord? : String → Option CommandName
  | "check" => some check
  | "dump" => some dump
  | "batch" => some batch
  | _ => none

end CommandName

namespace OptionName

/-- The option with a long name, without its dashes. -/
def ofLong? : String → Option OptionName
  | "help" => some help
  | "color" => some colour
  | "json" => some json
  | "output" => some output
  | "max-nonterminals" => some maxNonterminals
  | "brute-force" => some bruteForce
  | "keep-contradictions" => some keepContradictions
  | "no-simplify" => some noSimplify
  | _ => none

/-- The option with a short name. -/
def ofShort? : Char → Option OptionName
  | 'h' => some help
  | 'o' => some output
  | _ => none

/-- Whether the option has a value. -/
def takesValue : OptionName → Bool
  | colour | output | maxNonterminals => true
  | _ => false

/-- Whether a command has the option. -/
def isOf (option : OptionName) : CommandName → Bool
  | .check => option ≠ json ∧ option ≠ output
  | .dump => option ≠ output
  | .batch => option ≠ json ∧ option ≠ colour

end OptionName

/-- The first number that is too large for an option, the 64th power of two. -/
def numberLimit : Nat :=
  0x10000000000000000

/-- Reads a decimal number, which may have a plus sign in front of it. -/
def readNumber? (text : String) : Option Nat :=
  let digits := match text.toList with
    | '+' :: rest => rest
    | characters => characters
  if digits.isEmpty || !digits.all Char.isDigit then none
  else
    let number := digits.foldl (fun number digit => number * 10 + (digit.toNat - '0'.toNat)) 0
    if number < numberLimit then some number else none

/-- Reads the word for a choice of colour. -/
def readColour? : String → Option ColourChoice
  | "auto" => some .automatic
  | "always" => some .always
  | "never" => some .never
  | _ => none

/-- Something that was read, but whose value is still to be checked. -/
inductive Pending where
  | nothing
  | option (name : OptionName) (value : Option String)
  | path (text : String)
deriving DecidableEq, Repr

/-- The arguments of a command, as far as they were read. -/
structure Arguments where
  path : Option String := none
  options : List (OptionName × String) := []
  pending : Pending := .nothing
deriving DecidableEq, Repr

namespace Arguments

/-- Checks the value of an option. -/
def checkValue (name : OptionName) (value : String) : Except ArgumentError Unit :=
  match name with
  | .colour => if (readColour? value).isSome then .ok () else .error .badValue
  | .output => if value.isEmpty then .error .badValue else .ok ()
  | .maxNonterminals => if (readNumber? value).isSome then .ok () else .error .badNumber
  | _ => .ok ()

/-- Takes an option with its value; every option may be given once. -/
def takeOption (arguments : Arguments) (name : OptionName) (value : String) :
    Except ArgumentError Arguments := do
  if (arguments.options.lookup name).isSome then throw .repeatedOption
  checkValue name value
  return { arguments with options := arguments.options ++ [(name, value)] }

/-- Checks and takes what is pending. -/
def settle (arguments : Arguments) : Except ArgumentError Arguments :=
  let settled := { arguments with pending := .nothing }
  match arguments.pending with
  | .nothing => .ok settled
  | .option _ none => .error .badValue
  | .option name (some value) => settled.takeOption name value
  | .path text => if text.isEmpty then .error .badValue else .ok { settled with path := some text }

/-- Whether a path was read already. -/
def hasPath (arguments : Arguments) : Bool :=
  match arguments.pending with
  | .path _ => true
  | _ => arguments.path.isSome

/-- Reads a path. -/
def readPath (arguments : Arguments) (text : String) : Except ArgumentError Arguments := do
  if arguments.hasPath then throw .unknownArgument
  return { ← arguments.settle with pending := .path text }

/-- Reads an option without a value. -/
def readFlag (arguments : Arguments) (name : OptionName) : Except ArgumentError Arguments := do
  let arguments ← arguments.settle
  if name = .help then throw .help
  arguments.takeOption name ""

/-- Reads an option with a value, which may be attached to it. -/
def readValued (arguments : Arguments) (name : OptionName) (attached : Option String) :
    Except ArgumentError Arguments := do
  let arguments ← arguments.settle
  match attached with
  | some value => arguments.takeOption name value
  | none => return { arguments with pending := .option name none }

/-- Divides the word of a long option, without its dashes, into the name and the attached value. -/
def splitLong (word : List Char) : String × Option String :=
  let name := String.ofList (word.takeWhile (· ≠ '='))
  match word.dropWhile (· ≠ '=') with
  | [] => (name, none)
  | _ :: value => (name, some (String.ofList value))

/-- Reads a long option. -/
def readLong (command : CommandName) (arguments : Arguments) (word : List Char) :
    Except ArgumentError Arguments :=
  let (name, attached) := splitLong word
  match (OptionName.ofLong? name).filter (·.isOf command) with
  | none => .error .unknownArgument
  | some option =>
    if option.takesValue then arguments.readValued option attached
    else if attached.isSome then .error .unwantedValue
    else arguments.readFlag option

/-- Reads a short option with what is attached to it. -/
def readShort (command : CommandName) (arguments : Arguments) (letter : Char)
    (attached : List Char) : Except ArgumentError Arguments :=
  match (OptionName.ofShort? letter).filter (·.isOf command) with
  | none => .error .unknownArgument
  | some option =>
    if option.takesValue then
      match attached with
      | [] => arguments.readValued option none
      | '=' :: value => arguments.readValued option (some (String.ofList value))
      | value => arguments.readValued option (some (String.ofList value))
    else arguments.readFlag option

/-- Reads a word that is no option: the value of the option in front of it, or a path. -/
def readPlain (arguments : Arguments) (word : String) : Except ArgumentError Arguments :=
  match arguments.pending with
  | .option name none => .ok { arguments with pending := .option name (some word) }
  | _ => arguments.readPath word

/-- Reads the words behind a command; behind `--` all words are paths. -/
def readWords (command : CommandName) : (pathsOnly : Bool) → Arguments → List String →
    Except ArgumentError Arguments
  | _, arguments, [] => arguments.settle
  | true, arguments, word :: words => do
    readWords command true (← arguments.readPath word) words
  | false, arguments, word :: words => do
    match word.toList with
    | ['-', '-'] => readWords command true arguments words
    | '-' :: '-' :: long => readWords command false (← arguments.readLong command long) words
    | '-' :: letter :: attached =>
      readWords command false (← arguments.readShort command letter attached) words
    | _ => readWords command false (← arguments.readPlain word) words

/-- The value of an option that was given. -/
def value? (arguments : Arguments) (name : OptionName) : Option String :=
  arguments.options.lookup name

/-- Whether an option was given. -/
def has (arguments : Arguments) (name : OptionName) : Bool :=
  (arguments.value? name).isSome

/-- The settings that the arguments ask for. -/
def settings (arguments : Arguments) : Settings where
  maxNonterminals :=
    ((arguments.value? .maxNonterminals).bind readNumber?).getD ({} : Settings).maxNonterminals
  bruteForce := arguments.has .bruteForce
  removeContradictions := !arguments.has .keepContradictions
  simplify := !arguments.has .noSimplify

/-- The choice of colour that the arguments ask for. -/
def colour (arguments : Arguments) : ColourChoice :=
  ((arguments.value? .colour).bind readColour?).getD .automatic

/-- The command that the arguments make up. -/
def toCommand (arguments : Arguments) (name : CommandName) : Except ArgumentError Command :=
  match arguments.path with
  | none => .error .missingPath
  | some path =>
    match name with
    | .check => .ok (.check path arguments.settings arguments.colour)
    | .dump => .ok (.dump path arguments.settings (arguments.has .json) arguments.colour)
    | .batch =>
      .ok (.batch path ((arguments.value? .output).getD "results") arguments.settings)

end Arguments

/-- Reads the words behind `help`: nothing, or the name of a command. -/
def readHelp : List String → ArgumentError
  | [] => .help
  | [word] => if (CommandName.ofWord? word).isSome ∨ word = "help" then .help else .unknownCommand
  | _ => .unknownCommand

/-- Reads words behind a `--` that stands in front of the command. -/
def readEscaped : List String → ArgumentError
  | [] => .helpForNoArguments
  | word :: _ =>
    if (CommandName.ofWord? word).isSome ∨ word = "help" then .unknownArgument else .unknownCommand

/-- Reads a word that should be a command but is none. -/
def readNoCommand (word : String) (words : List String) : ArgumentError :=
  match word.toList with
  | ['-', '-'] => readEscaped words
  | '-' :: '-' :: long =>
    let (name, attached) := Arguments.splitLong long
    if name ≠ "help" then .unknownArgument
    else if attached.isSome then .unwantedValue
    else .help
  | '-' :: letter :: _ => if letter = 'h' then .help else .unknownArgument
  | _ => .unknownCommand

/-- The command that a command line asks for. -/
def readCommand : List String → Except ArgumentError Command
  | [] => .error .helpForNoArguments
  | word :: words =>
    match CommandName.ofWord? word with
    | some name => do (← Arguments.readWords name false {} words).toCommand name
    | none => .error (if word = "help" then readHelp words else readNoCommand word words)

end VisiblyPushdown.CommandLine
