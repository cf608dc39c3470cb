/-!
# Command line arguments

The program has three commands.  Each takes a design file and options with values; `query`
takes the path of an instance besides.  Arguments are read from left to right, and the first
fault, or the first request for help or for the version, decides.

An option is written in full or by its letter, with its value behind an equals sign, behind the
letter, or in the next argument; the next argument must not look like an option itself.  Behind
two dashes every argument is taken as it is.

## Main definitions

* `Command`, `Request` — what a command line asks for.
* `CommandName.options` — the options of a command.
* `Request.ofArguments` — reads a command line.
-/

namespace Reactors
namespace CommandLine

/-! ### Requests -/

/-- A command with its arguments. -/
inductive Command where
  /-- Prints the tree of a design, or writes it to a file. -/
  | elaborate (design : String) (config : Option String) (format : String)
    (output : Option String)
  /-- Tells whether a design can be elaborated. -/
  | check (design : String) (config : Option String)
  /-- Prints one instance. -/
  | query (design : String) (name : String) (config : Option String)
  deriving DecidableEq, Repr

/-- The name of a command. -/
inductive CommandName where
  | elaborate
  | check
  | query
  deriving DecidableEq, Repr

/-- What a command line asks for. -/
inductive Request where
  | run (command : Command)
  /-- The version of the program, or of a command. -/
  | version (command : Option CommandName)
  /-- Help on the program, or on a command. -/
  | help (command : Option CommandName)
  /-- The arguments do not follow the rules. -/
  | misuse
  deriving DecidableEq, Repr

/-! ### The arguments of the commands -/

/-- An argument with a value. -/
inductive Slot where
  | design
  | name
  | config
  | format
  | output
  deriving DecidableEq, Repr

/-- Whether the value of an argument is the path of a file, which is never empty. -/
def Slot.isPath : Slot → Bool
  | .design => true
  | .config => true
  | .output => true
  | _ => false

namespace CommandName

/-- Every command. -/
def all : List CommandName := [.elaborate, .check, .query]

/-- The word for the command. -/
def word : CommandName → String
  | .elaborate => "elaborate"
  | .check => "check"
  | .query => "query"

/-- The command with this word. -/
def ofWord? (word : String) : Option CommandName := all.find? (·.word == word)

/-- The arguments without option, in order; all of them must be there. -/
def positionals : CommandName → List Slot
  | .elaborate => [.design]
  | .check => [.design]
  | .query => [.design, .name]

/-- The options in full. -/
def options : CommandName → List (String × Slot)
  | .elaborate => [("config", .config), ("format", .format), ("output", .output)]
  | _ => [("config", .config)]

/-- The option with this name in full. -/
def option? (c : CommandName) (name : String) : Option Slot :=
  (c.options.find? (·.1 == name)).map Prod.snd

/-- The option with this letter, which is the first one of its name. -/
def letter? (c : CommandName) (letter : Char) : Option Slot :=
  (c.options.find? (·.1.toList.head? == some letter)).map Prod.snd

end CommandName

/-- The values that were given so far. -/
abbrev Values := List (Slot × String)

/-- The value of an argument. -/
def value? (slot : Slot) (values : Values) : Option String :=
  (values.find? (·.1 == slot)).map Prod.snd

/-- Takes a value for an argument that has none yet; a path must not be empty. -/
def give? (slot : Slot) (value : String) (values : Values) : Option Values :=
  if (value? slot values).isSome || (slot.isPath && value.isEmpty) then none
  else some ((slot, value) :: values)

/-- Takes a value for the next argument without option. -/
def givePositional? (c : CommandName) (value : String) (values : Values) : Option Values :=
  match c.positionals.find? fun slot => (value? slot values).isNone with
  | some slot => give? slot value values
  | none => none

/-- The command with its values, if none is missing. -/
def command? (c : CommandName) (values : Values) : Option Command := do
  let design ← value? .design values
  let config := value? .config values
  match c with
  | .elaborate =>
    return .elaborate design config ((value? .format values).getD "text") (value? .output values)
  | .check => return .check design config
  | .query => return .query design (← value? .name values) config

/-! ### Reading -/

/-- Splits a text at its first equals sign. -/
def splitAtEquals : List Char → List Char × Option (List Char)
  | [] => ([], none)
  | '=' :: r => ([], some r)
  | c :: r => let (name, value) := splitAtEquals r; (c :: name, value)

/-- Whether an argument looks like an option. -/
def looksLikeOption (s : String) : Bool :=
  match s.toList with
  | '-' :: _ :: _ => true
  | _ => false

/-- Reads arguments behind two dashes. -/
def readRest (c : CommandName) (values : Values) : List String → Request
  | [] => ((command? c values).map Request.run).getD .misuse
  | a :: as =>
    match givePositional? c a values with
    | some values => readRest c values as
    | none => .misuse

/-- Reads the arguments of a command. -/
def readArguments (c : CommandName) (values : Values) : List String → Request
  | [] => ((command? c values).map Request.run).getD .misuse
  | a :: as =>
    let missing (slot : Slot) : Request :=
      match as with
      | [] => .misuse
      | v :: rest =>
        if looksLikeOption v then .misuse
        else match give? slot v values with
          | some values => readArguments c values rest
          | none => .misuse
    let given (slot : Slot) (v : List Char) : Request :=
      match give? slot (String.ofList v) values with
      | some values => readArguments c values as
      | none => .misuse
    match a.toList with
    | ['-', '-'] => readRest c values as
    | '-' :: '-' :: long =>
      let (name, value) := splitAtEquals long
      match String.ofList name, value with
      | "help", none => .help (some c)
      | "version", none => .version (some c)
      | name, value =>
        match c.option? name, value with
        | some slot, some v => given slot v
        | some slot, none => missing slot
        | none, _ => .misuse
    | '-' :: 'h' :: _ => .help (some c)
    | '-' :: 'V' :: _ => .version (some c)
    | '-' :: letter :: more =>
      match c.letter? letter, more with
      | some slot, [] => missing slot
      | some slot, '=' :: v => given slot v
      | some slot, v => given slot v
      | none, _ => .misuse
    | _ =>
      match givePositional? c a values with
      | some values => readArguments c values as
      | none => .misuse

/-- Reads the letters of an argument in front of the command; `none` if all of them raise the
verbosity. -/
def readLetters : List Char → Option Request
  | [] => none
  | 'v' :: r => readLetters r
  | 'h' :: _ => some (.help none)
  | 'V' :: _ => some (.version none)
  | _ => some .misuse

/-- Reads what help is asked on. -/
def readHelp : List String → Request
  | [] => .help none
  | ["help"] => .help none
  | [word] => ((CommandName.ofWord? word).map fun c => Request.help (some c)).getD .misuse
  | _ => .misuse

/-- Reads a command line. -/
def Request.ofArguments : List String → Request
  | [] => .misuse
  | "--verbose" :: as => ofArguments as
  | "--help" :: _ => .help none
  | "--version" :: _ => .version none
  | "help" :: as => readHelp as
  | a :: as =>
    match a.toList with
    | '-' :: '-' :: _ => .misuse
    | '-' :: c :: r =>
      match readLetters (c :: r) with
      | some request => request
      | none => ofArguments as
    | _ =>
      match CommandName.ofWord? a with
      | some c => readArguments c [] as
      | none => .misuse

end CommandLine
end Reactors
