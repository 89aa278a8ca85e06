import Breadboard.Cli.Command
import Breadboard.Source.Literal

/-!
# Reading the command line

Arguments are read from left to right. A subcommand's name switches to the options of
that subcommand, and two dashes end the options. Every option may be given once: in full
(`--max 5`, `--max=5`) or, if it has a letter, in short form (`-o x`, `-ox`, `-o=x`), and
letters without values may stand together (`-mu`).
-/

namespace Breadboard

inductive CliOption where
  | eightBit
  | unsigned
  | minimal
  | max
  | start
  | out
  | pad
  | silent
  | help
  | version
deriving DecidableEq, Repr

namespace CliOption

def all : List CliOption :=
  [eightBit, unsigned, minimal, max, start, out, pad, silent, help, version]

def long : CliOption → String
  | eightBit => "eight-bit"
  | unsigned => "unsigned"
  | minimal => "minimal"
  | max => "max"
  | start => "start"
  | out => "out"
  | pad => "pad"
  | silent => "silent"
  | help => "help"
  | version => "version"

def short? : CliOption → Option Char
  | eightBit | max | start => none
  | unsigned => some 'u'
  | minimal => some 'm'
  | out => some 'o'
  | pad => some 'p'
  | silent => some 's'
  | help => some 'h'
  | version => some 'V'

def takesValue : CliOption → Bool
  | max | start | out => true
  | eightBit | unsigned | minimal | pad | silent | help | version => false

end CliOption

inductive Subcommand where
  | run
  | compile
  | check
  | disasm
  | watch
deriving DecidableEq, Repr

namespace Subcommand

def all : List Subcommand := [run, compile, check, disasm, watch]

def name : Subcommand → String
  | run => "run"
  | compile => "compile"
  | check => "check"
  | disasm => "disasm"
  | watch => "watch"

def ofName? (name : String) : Option Subcommand :=
  all.find? (·.name = name)

def options : Subcommand → List CliOption
  | run => [.eightBit, .unsigned, .minimal, .max, .start, .help]
  | compile => [.eightBit, .unsigned, .out, .pad, .silent, .help]
  | check | watch => [.eightBit, .unsigned, .help]
  | disasm => [.eightBit, .help]

end Subcommand

inductive UsageError where
  | unknownOption (argument : String)
  | unexpectedValue (option : CliOption)
  | missingValue (option : CliOption)
  | repeated (option : CliOption)
  | emptyName
  | notANumber (option : CliOption) (value : String)
  | surplus (argument : String)
  | missingName
  | unknownSubcommand (name : String)
deriving DecidableEq, Repr

namespace UsageError

def message : UsageError → String
  | unknownOption argument => "unexpected argument '" ++ argument ++ "' found"
  | unexpectedValue option => "no value is expected for '--" ++ option.long ++ "'"
  | missingValue option => "a value is required for '--" ++ option.long ++ "'"
  | repeated option => "'--" ++ option.long ++ "' cannot be used multiple times"
  | emptyName => "a file name cannot be empty"
  | notANumber option value => "invalid value '" ++ value ++ "' for '--" ++ option.long ++ "'"
  | surplus argument => "unexpected argument '" ++ argument ++ "' found"
  | missingName => "a file name is required"
  | unknownSubcommand name => "unrecognized subcommand '" ++ name ++ "'"

end UsageError

structure Given where
  /-- The options with their values; those without one have an empty value. -/
  options : List (CliOption × String) := []
  name? : Option String := none
deriving DecidableEq, Repr

namespace Given

def has (option : CliOption) (given : Given) : Bool :=
  given.options.any (·.1 = option)

def value? (option : CliOption) (given : Given) : Option String :=
  given.options.lookup option

/-- Adds an option. Giving one twice is an error. -/
def add (option : CliOption) (value : String) (given : Given) : Except UsageError Given :=
  if given.has option then .error (.repeated option)
  else .ok { given with options := given.options ++ [(option, value)] }

/-- Adds the file name. There is only room for one, and it cannot be empty. -/
def addName (name : String) (given : Given) : Except UsageError Given :=
  if given.name?.isSome then .error (.surplus name)
  else if name.isEmpty then .error .emptyName
  else .ok { given with name? := some name }

def reading (given : Given) : ReadSettings where
  mode := if given.has .eightBit then .eightBit else .elevenBit
  signedness := if given.has .unsigned then .unsigned else .signed

end Given

/-- The first number that an option cannot have. -/
def countLimit : Nat := 0x10000000000000000

/-- Reads the number that an option has for its value: decimal digits, which a plus sign
may precede. -/
def readCount (option : CliOption) (value : String) : Except UsageError Nat :=
  let digits :=
    match value.toList with
    | '+' :: digits => digits
    | digits => digits
  match (Radix.decimal.read? digits).filter (· < countLimit) with
  | some number => .ok number
  | none => .error (.notANumber option value)

/-- Adds an option with its value, which is checked at once. -/
def Given.addValue (option : CliOption) (value : String) (given : Given) :
    Except UsageError Given :=
  match option with
  | .max | .start => do
    let _ ← readCount option value
    given.add option value
  | .out => if value.isEmpty then .error .emptyName else given.add option value
  | .eightBit | .unsigned | .minimal | .pad | .silent | .help | .version =>
    .error (.unexpectedValue option)

inductive ArgumentOutcome where
  | taken (given : Given)
  /-- The next argument is the value of an option. -/
  | awaiting (option : CliOption) (given : Given)
  /-- Help or the version is asked for, whatever comes after it. -/
  | information (option : CliOption)
  /-- The argument names a subcommand, to which the following ones belong. -/
  | subcommand
  /-- Only file names follow. -/
  | namesOnly
deriving DecidableEq, Repr

def takeFlag (option : CliOption) (given : Given) : Except UsageError ArgumentOutcome :=
  match option with
  | .help | .version => .ok (.information option)
  | .eightBit | .unsigned | .minimal | .max | .start | .out | .pad | .silent =>
    (given.add option "").map .taken

def readLong (allowed : List CliOption) (argument name : String) (value? : Option String)
    (given : Given) : Except UsageError ArgumentOutcome :=
  match allowed.find? (·.long = name), value? with
  | none, _ => .error (.unknownOption argument)
  | some option, some value => (given.addValue option value).map .taken
  | some option, none =>
    if option.takesValue then .ok (.awaiting option given) else takeFlag option given

def readShort (allowed : List CliOption) (argument : String) (given : Given) :
    List Char → Except UsageError ArgumentOutcome
  | [] => .ok (.taken given)
  | letter :: rest =>
    match allowed.find? (·.short? = some letter) with
    | none => .error (.unknownOption argument)
    | some option =>
      if option.takesValue then
        match rest with
        | [] => .ok (.awaiting option given)
        | '=' :: value | value => (given.addValue option (String.ofList value)).map .taken
      else
        match takeFlag option given with
        | .ok (.taken more) => readShort allowed argument more rest
        | outcome => outcome

inductive ArgumentForm where
  | separator
  | long (name : String) (value? : Option String)
  | short (letters : List Char)
  | plain
deriving DecidableEq, Repr

/-- Tells the form of an argument by its dashes. A dash alone is a plain argument. -/
def ArgumentForm.ofText (argument : String) : ArgumentForm :=
  match argument.toList with
  | ['-', '-'] => separator
  | '-' :: '-' :: rest =>
    let name := String.ofList (rest.takeWhile (· != '='))
    match rest.dropWhile (· != '=') with
    | _ :: value => long name (some (String.ofList value))
    | [] => long name none
  | '-' :: letter :: letters => short (letter :: letters)
  | _ => plain

def readArgument (allowed : List CliOption) (isSubcommand : String → Bool) (argument : String)
    (given : Given) : Except UsageError ArgumentOutcome :=
  match ArgumentForm.ofText argument with
  | .separator => .ok .namesOnly
  | .long name value? => readLong allowed argument name value? given
  | .short letters => readShort allowed argument given letters
  | .plain =>
    if isSubcommand argument then .ok .subcommand else (given.addName argument).map .taken

inductive Gathered where
  | arguments (given : Given)
  | information (option : CliOption)
  | subcommand (name : String) (rest : List String)
deriving DecidableEq, Repr

/-- Reads arguments with the options `allowed`, up to one that names a subcommand. -/
def gather (allowed : List CliOption) (isSubcommand : String → Bool) (given : Given) :
    List String → Except UsageError Gathered
  | [] => .ok (.arguments given)
  | argument :: rest =>
    match readArgument allowed isSubcommand argument given with
    | .error failure => .error failure
    | .ok (.taken more) => gather allowed isSubcommand more rest
    | .ok (.awaiting option more) =>
      match rest with
      | [] => .error (.missingValue option)
      | value :: rest =>
        if ArgumentForm.ofText value = .plain then
          match more.addValue option value with
          | .ok more => gather allowed isSubcommand more rest
          | .error failure => .error failure
        else .error (.missingValue option)
    | .ok (.information option) => .ok (.information option)
    | .ok .subcommand => .ok (.subcommand argument rest)
    | .ok .namesOnly =>
      (rest.foldlM (fun (given : Given) name => given.addName name) given).map .arguments

def informationCommand (option : CliOption) : Command :=
  if option = .version then .version else .help

def countOr (option : CliOption) (default : Nat) (given : Given) : Except UsageError Nat :=
  match given.value? option with
  | some value => readCount option value
  | none => .ok default

def commandOf (name : String) (given : Given) : Subcommand → Except UsageError Command
  | .run => do
    let defaults : RunSettings := {}
    return .run name
      { reading := given.reading
        minimal := given.has .minimal
        limit := ← countOr .max defaults.limit given
        start := ← countOr .start defaults.start given }
  | .compile =>
    .ok (.compile name
      { reading := given.reading
        out? := given.value? .out
        padded := given.has .pad
        silent := given.has .silent })
  | .check => .ok (.check name given.reading)
  | .disasm => .ok (.disassemble name given.reading.mode)
  | .watch => .ok (.watch name given.reading)

def readSubcommand (subcommand : Subcommand) (arguments : List String) :
    Except UsageError Command := do
  match ← gather subcommand.options (fun _ => false) {} arguments with
  | .information option => return informationCommand option
  | .arguments given =>
    match given.name? with
    | some name => commandOf name given subcommand
    | none => .error .missingName
  | .subcommand name _ => .error (.unknownSubcommand name)

/-- Help on a subcommand is asked for by its name. -/
def readHelp : List String → Except UsageError Command
  | [] => .ok .help
  | [name] =>
    if name == "help" || (Subcommand.ofName? name).isSome then .ok .help
    else .error (.unknownSubcommand name)
  | name :: _ => .error (.unknownSubcommand name)

/-- **Reads the command line.** Without a subcommand, a file name alone is run with the
default settings. -/
def readArguments (arguments : List String) : Except UsageError Command := do
  let isSubcommand (name : String) : Bool := name == "help" || (Subcommand.ofName? name).isSome
  match ← gather [.help, .version] isSubcommand {} arguments with
  | .information option => return informationCommand option
  | .arguments given =>
    match given.name? with
    | some name => return .run name {}
    | none => return .welcome
  | .subcommand name rest =>
    match Subcommand.ofName? name with
    | some subcommand => readSubcommand subcommand rest
    | none => readHelp rest

end Breadboard
