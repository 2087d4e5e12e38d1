import Ramlify.Format

/-!
# Arguments

The arguments of the command line. There are two commands: `convert` with a source and options, and
`formats`. Options may stand before and after the source, and the last one of a kind counts. After
two dashes nothing is an option any more. Arguments that are not understood are a wrong usage, for
which there is no command.
-/

namespace Ramlify.CommandLine

/-- What is to be converted, and how. -/
structure Conversion where
  source : String
  sourceFormat : String
  targetFormat : String
  output : Option String
  verbose : Bool

/-- What the command line is asked to do. -/
inductive Command where
  | convert (conversion : Conversion)
  | formats
  | help

/-! ## Options -/

/-- The kinds of options. -/
inductive Switch where
  | sourceFormat
  | targetFormat
  | output
  | verbose
  | help
  deriving DecidableEq, Repr

/-- Whether an option comes with a value. -/
def Switch.takesValue : Switch → Bool
  | verbose => false
  | help => false
  | _ => true

/-- The options that a command knows, by their long names and by letters. -/
structure Grammar where
  long : Entries String Switch
  short : Entries Char Switch := []

def conversionGrammar : Grammar where
  long := [("--from", .sourceFormat), ("--to", .targetFormat), ("--output", .output),
    ("--verbose", .verbose), ("--help", .help)]
  short := [('o', .output), ('v', .verbose)]

/-- The options that every command knows. -/
def plainGrammar : Grammar where
  long := [("--help", .help)]

/-- The options that an argument gives, and one whose value is the next argument. -/
structure Switches where
  given : List (Switch × String) := []
  pending : Option Switch := none

def isOption (argument : String) : Bool :=
  match argument.toList with
  | '-' :: _ :: _ => true
  | _ => false

/-- Options given by letters. The rest of the argument is the value of the first option that comes
with one. -/
def Grammar.letters (grammar : Grammar) : List Char → Option Switches
  | [] => some {}
  | c :: cs => do
    let found ← Entries.get? grammar.short c
    if found.takesValue then
      if cs.isEmpty then return { pending := some found }
      else return { given := [(found, String.ofList cs)] }
    else
      let more ← grammar.letters cs
      return { more with given := (found, "") :: more.given }

/-- The option of a long name, with the value after an equals sign. -/
def named (found : Switch) (value : Option String) : Option Switches :=
  match value with
  | none =>
    if found.takesValue then some { pending := some found }
    else some { given := [(found, "")] }
  | some value => if found.takesValue then some { given := [(found, value)] } else none

/-- The options that an argument gives. -/
def Grammar.switches (grammar : Grammar) (argument : String) : Option Switches :=
  let cs := argument.toList
  let name := cs.takeWhile (· != '=')
  let value := if cs.contains '=' then some (String.ofList (cs.drop (name.length + 1))) else none
  match Entries.get? grammar.long (String.ofList name) with
  | some found => named found value
  | none => if ['-', '-'].isPrefixOf cs then none else grammar.letters (cs.drop 1)

/-! ## Arguments -/

/-- Arguments taken apart. -/
structure Parsed where
  options : List (Switch × String) := []
  positional : List String := []

def Parsed.addOptions (parsed : Parsed) (more : List (Switch × String)) : Parsed :=
  { parsed with options := parsed.options ++ more }

/-- Adds arguments that are no options. -/
def Parsed.addPositional (parsed : Parsed) (more : List String) : Parsed :=
  { parsed with positional := parsed.positional ++ more }

def Parsed.value? (parsed : Parsed) (option : Switch) : Option String :=
  ((parsed.options.filter fun given => given.1 == option).getLast?).map (·.2)

def Parsed.has (parsed : Parsed) (option : Switch) : Bool := (parsed.value? option).isSome

def Grammar.parseFrom (grammar : Grammar) (parsed : Parsed) : List String → Option Parsed
  | [] => some parsed
  | argument :: rest =>
    if argument = "--" then some (parsed.addPositional rest)
    else if isOption argument then
      match grammar.switches argument with
      | none => none
      | some { given, pending := none } => grammar.parseFrom (parsed.addOptions given) rest
      | some { given, pending := some option } =>
        match rest with
        | [] => none
        | value :: rest =>
          grammar.parseFrom (parsed.addOptions (given ++ [(option, value)])) rest
    else grammar.parseFrom (parsed.addPositional [argument]) rest

def Grammar.parse (grammar : Grammar) (arguments : List String) : Option Parsed :=
  grammar.parseFrom {} arguments

/-! ## Commands -/

/-- The word for finding out the format of a source. -/
def autoFormat : String := "auto"

def choice (choices : List String) (default : String) (value : Option String) : Option String :=
  let word := value.getD default
  if word ∈ choices then some word else none

/-- The command `convert` with its arguments. -/
def conversionOf (arguments : List String) : Option Command := do
  let parsed ← conversionGrammar.parse arguments
  if parsed.has .help then return .help
  match parsed.positional with
  | [source] =>
    let sourceFormat ←
      choice (autoFormat :: Format.sources) autoFormat (parsed.value? .sourceFormat)
    let targetFormat ← choice Format.targets "raml10" (parsed.value? .targetFormat)
    let output := parsed.value? .output
    return .convert { source, sourceFormat, targetFormat, output, verbose := parsed.has .verbose }
  | _ => none

/-- The command `formats` with its arguments. -/
def formatsOf (arguments : List String) : Option Command := do
  let parsed ← plainGrammar.parse arguments
  if parsed.has .help then return .help
  if parsed.positional.isEmpty then return .formats else none

def commandOf : List String → Option Command
  | "convert" :: arguments => conversionOf arguments
  | "formats" :: arguments => formatsOf arguments
  | _ => none

/-- The command that arguments give. Options before its name have to be known. -/
def parseFrom (helping : Bool) : List String → Option Command
  | [] => if helping then some .help else none
  | argument :: rest =>
    if argument = "--" then if helping then some .help else commandOf rest
    else if isOption argument then
      match plainGrammar.switches argument with
      | none => none
      | some _ => parseFrom true rest
    else if helping then some .help
    else commandOf (argument :: rest)

/-- The command that arguments give, unless they are not understood. -/
def parse (arguments : List String) : Option Command := parseFrom false arguments

end Ramlify.CommandLine
