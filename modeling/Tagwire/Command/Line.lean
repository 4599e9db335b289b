import Tagwire.Command

/-!
# Command lines

A command line is a command with options and operands around it.  Options are words that start with a
hyphen: long ones have a name, short ones a letter, and letters of one word may share its hyphen.  A value
follows its option in the same word, after an equals sign or directly after a letter, or is the next word
if that is no option itself.  Only operands follow a bare double hyphen.  The words are judged from left to
right, and a call for help or for the version ends the line.
-/

set_option autoImplicit false

namespace Tagwire

namespace CommandLine

/-- What an option does. -/
inductive OptionKind where
  | help
  | version
  | tally
  | flag
  | value (mayBeEmpty : Bool)
deriving DecidableEq, Repr

/-- An option. -/
structure OptionRule where
  name : String
  letter : Option Char := none
  kind : OptionKind
deriving DecidableEq, Repr

/-- The options and operands of a line so far. -/
structure Given where
  options : List (String × String) := []
  operands : List String := []
deriving DecidableEq, Repr

namespace Given

/-- The value of an option. -/
def value? (given : Given) (name : String) : Option String := given.options.lookup name

/-- Has the option been given? -/
def has (given : Given) (name : String) : Bool := (given.value? name).isSome

/-- Adds an option, which may be repeated only if it is tallied. -/
def add? (given : Given) (rule : OptionRule) (value : String) : Option Given :=
  if (given.has rule.name && rule.kind != .tally) || (rule.kind == .value false && value.isEmpty) then none
  else some { given with options := given.options ++ [(rule.name, value)] }

end Given

/-- What a line, or the front of it, comes to. -/
inductive Scanned where
  | help
  | version
  | complete (given : Given)
  | command (name : String) (given : Given) (rest : List String)
deriving DecidableEq, Repr

/-- What a word with options comes to. -/
inductive WordEnd where
  | help
  | version
  | done (given : Given)
  | wants (rule : OptionRule) (given : Given)
deriving DecidableEq, Repr

/-- Reads the letters of a word with short options. -/
def readLetters? (rules : List OptionRule) (given : Given) : List Char → Option WordEnd
  | [] => some (.done given)
  | letter :: rest => do
    let rule ← rules.find? fun r => r.letter == some letter
    match rule.kind, rest with
    | .help, _ => some .help
    | .version, _ => some .version
    | .value _, [] => some (.wants rule given)
    | .value _, '=' :: value => (given.add? rule (String.ofList value)).map .done
    | .value _, value => (given.add? rule (String.ofList value)).map .done
    | _, rest => (given.add? rule "").bind fun given => readLetters? rules given rest

/-- Reads a word with a long option, behind its hyphens. -/
def readLong? (rules : List OptionRule) (given : Given) (word : List Char) : Option WordEnd := do
  let name := String.ofList (word.takeWhile (· != '='))
  let rule ← rules.find? fun r => r.name == name
  match rule.kind, word.dropWhile (· != '=') with
  | .help, [] => some .help
  | .version, [] => some .version
  | .value _, [] => some (.wants rule given)
  | .value _, _ :: value => (given.add? rule (String.ofList value)).map .done
  | _, [] => (given.add? rule "").map .done
  | _, _ :: _ => none

/-- Reads a word that starts with a hyphen and has more. -/
def readOptionWord? (rules : List OptionRule) (given : Given) : List Char → Option WordEnd
  | '-' :: '-' :: word => readLong? rules given word
  | '-' :: letters => readLetters? rules given letters
  | _ => none

/-- Is the word an option? -/
def isOptionWord (word : String) : Bool := word.startsWith "-" && word != "-"

/-- Adds operands, none of which may be empty. -/
def addOperands? (takesOperands : Bool) (given : Given) (words : List String) : Option Given :=
  if words.isEmpty then some given
  else if !takesOperands || words.any String.isEmpty then none
  else some { given with operands := given.operands ++ words }

/-- Reads the words of a line up to its end or to the name of a command. -/
def scan? (rules : List OptionRule) (commands : List String) (takesOperands : Bool) (given : Given) :
    List String → Option Scanned
  | [] => some (.complete given)
  | word :: rest =>
    if word = "--" then (addOperands? takesOperands given rest).map .complete
    else if isOptionWord word then
      match readOptionWord? rules given word.toList with
      | none => none
      | some .help => some .help
      | some .version => some .version
      | some (.done given) => scan? rules commands takesOperands given rest
      | some (.wants rule given) =>
        match rest with
        | [] => none
        | value :: rest =>
          if isOptionWord value then none
          else
            match given.add? rule value with
            | some given => scan? rules commands takesOperands given rest
            | none => none
    else if commands.contains word then some (.command word given rest)
    else
      match addOperands? takesOperands given [word] with
      | some given => scan? rules commands takesOperands given rest
      | none => none

/-! ## The options of the program -/

/-- A path as the value of an option. -/
def pathOption (name : String) (letter : Option Char := none) : OptionRule :=
  { name, letter, kind := .value false }

/-- The options that may stand anywhere in a line. -/
def sharedOptions : List OptionRule :=
  [{ name := "verbose", letter := some 'v', kind := .tally },
   pathOption "cipher-config",
   { name := "help", letter := some 'h', kind := .help }]

/-- The options in front of a command. -/
def frontOptions : List OptionRule :=
  { name := "version", letter := some 'V', kind := .version } :: sharedOptions

/-- The name of the command that calls for help. -/
def helpCommand : String := "help"

/-- The names of the commands. -/
def commandNames : List String := ["types", "encode", "decode", "peek", helpCommand]

/-- The options of a command. -/
def optionsOf (name : String) : List OptionRule :=
  let own :=
    match name with
    | "types" => [{ name := "json", kind := .flag }]
    | "encode" =>
      [pathOption "input" (some 'i'), pathOption "output" (some 'o'),
       { name := "predictive", kind := .flag }, { name := "no-verify", kind := .flag }]
    | "decode" =>
      [pathOption "input" (some 'i'), { name := "type", kind := .value true },
       pathOption "output" (some 'o')]
    | "peek" => [pathOption "input" (some 'i')]
    | _ => []
  own ++ sharedOptions

/-- The command with a name, unless one of its options or operands is missing. -/
def commandOf? (name : String) (given : Given) : Option Command :=
  let schemas := given.operands
  match name with
  | "types" => if schemas.isEmpty then none else some (.types schemas (given.has "json"))
  | "encode" => do
    let input ← given.value? "input"
    let output ← given.value? "output"
    if schemas.isEmpty then none
    else
      some (.encode schemas input output
        { verify := !given.has "no-verify", predictive := given.has "predictive" })
  | "decode" => do
    let input ← given.value? "input"
    if schemas.isEmpty then none
    else
      let output := match given.value? "output" with
        | some path => Destination.file path
        | none => .printed
      some (.decode schemas input (given.value? "type") output)
  | "peek" => (given.value? "input").map .peek
  | _ => none

/-- What a line asks for. -/
inductive Request where
  | help
  | version
  | run (command : Command) (cipher : Option String)
deriving Repr

/-- What a line asks for, unless it is malformed.  An option given behind the name of the command counts
before the same one in front of it. -/
def parse? (line : List String) : Option Request := do
  match ← scan? frontOptions commandNames false {} line with
  | .help => some .help
  | .version => some .version
  | .complete _ => none
  | .command name front rest =>
    if name = helpCommand then
      match rest with
      | [] => some .help
      | [topic] => if commandNames.contains topic then some .help else none
      | _ => none
    else
      match ← scan? (optionsOf name) [] (name != "peek") {} rest with
      | .complete given =>
        let command ← commandOf? name given
        some (.run command ((given.value? "cipher-config").or (front.value? "cipher-config")))
      | .help => some .help
      | _ => none

/-- The name of the program and its version. -/
def versionText : String := "protospark 0.1.0\n"

/-- How the program is used. -/
def usageText : String :=
  "Usage: protospark [-v] [--cipher-config <PATH>] <COMMAND>\n\n"
    ++ "  types <PROTO>... [--json]\n"
    ++ "  encode <PROTO>... --input <PATH> --output <PATH> [--predictive] [--no-verify]\n"
    ++ "  decode <PROTO>... --input <PATH> [--type <NAME>] [--output <PATH>]\n"
    ++ "  peek --input <PATH>\n"

/-- How a program ends: its exit code and what it prints. -/
structure Exit where
  code : Nat
  output : String := ""
deriving DecidableEq, Repr

/-- Carries out a line on files: how the program ends, and the files after it. -/
def run (files : Files) (line : List String) : Exit × Files :=
  match parse? line with
  | none => ({ code := 2 }, files)
  | some .help => ({ code := 0, output := usageText }, files)
  | some .version => ({ code := 0, output := versionText }, files)
  | some (.run command cipher) =>
    match command.run files cipher with
    | (.ok text, files) => ({ code := 0, output := text }, files)
    | (.error _, files) => ({ code := 1 }, files)

end CommandLine

end Tagwire
