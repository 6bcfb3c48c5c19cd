import CssLex.Config.Basic

/-!
The arguments of the command line. A value behind an option waits until the next argument that
acts, or until the end, before it is looked at; a value behind an equals sign is looked at at once.
-/

namespace CssLex
namespace CommandLine

/-- What a command line asks for. -/
structure Options where
  /-- The style sheet; without one, or with a hyphen, the standard input. -/
  input : Option String := none
  /-- Keep white space, comments and their marks. -/
  all : Bool := false
  format : Option OutputFormat := none
  /-- A configuration file that has to load. -/
  config : Option String := none
  /-- Leave out warnings. -/
  quiet : Bool := false
  /-- Look for malformed tokens without writing any. -/
  check : Bool := false
deriving Repr, DecidableEq

/-- Why a command line is not run. -/
inductive Refusal where
  | unknownArgument (argument : String)
  | invalidValue (argument : String)
  /-- An argument was given twice. -/
  | argumentConflict (argument : String)
  /-- A switch was given a value. -/
  | tooManyValues (argument : String)
  | displayHelp
  | displayVersion
deriving Repr, DecidableEq

/-- What a value can belong to. -/
inductive Target where
  | input
  | format
  | config
deriving Repr, DecidableEq

/-- The name of a target in messages. -/
def Target.name : Target → String
  | input => "[INPUT]"
  | format => "--format"
  | config => "--config"

/-- The switches. -/
inductive Switch where
  | all
  | quiet
  | check
  | help
  | version
deriving Repr, DecidableEq

/-- The name of a switch in messages. -/
def Switch.name : Switch → String
  | all => "--all"
  | quiet => "--quiet"
  | check => "--check"
  | help => "--help"
  | version => "--version"

/-- The switch of a long name. -/
def Switch.ofLong? : String → Option Switch
  | "all" => some all
  | "quiet" => some quiet
  | "check" => some check
  | "help" => some help
  | "version" => some version
  | _ => none

/-- The switch of a letter. -/
def Switch.ofLetter? : Char → Option Switch
  | 'q' => some quiet
  | 'h' => some help
  | 'V' => some version
  | _ => none

/-- The option with a value of a long name. -/
def Target.ofLong? : String → Option Target
  | "format" => some format
  | "config" => some config
  | _ => none

/-- The format of a name. -/
def formatOfName? : String → Option OutputFormat
  | "text" => some .text
  | "json" => some .json
  | "css" => some .css
  | _ => none

namespace Options

/-- Whether a target has its value. -/
def has (o : Options) : Target → Bool
  | .input => o.input.isSome
  | .format => o.format.isSome
  | .config => o.config.isSome

/-- Gives a target its value. A second value is a conflict, whatever it is. -/
def assign (o : Options) (target : Target) (value : String) : Except Refusal Options :=
  if o.has target then .error (.argumentConflict target.name)
  else
    match target with
    | .input => if value = "" then .error (.invalidValue value) else .ok { o with input := value }
    | .config => if value = "" then .error (.invalidValue value) else .ok { o with config := value }
    | .format =>
      match formatOfName? value with
      | some format => .ok { o with format }
      | none => .error (.invalidValue value)

/-- Turns a switch on, which may be done once. -/
def turnOn (o : Options) (switch : Switch) : Except Refusal Options :=
  match switch with
  | .all => if o.all then .error (.argumentConflict switch.name) else .ok { o with all := true }
  | .quiet =>
    if o.quiet then .error (.argumentConflict switch.name) else .ok { o with quiet := true }
  | .check =>
    if o.check then .error (.argumentConflict switch.name) else .ok { o with check := true }
  | .help => .error .displayHelp
  | .version => .error .displayVersion

end Options

/-- How far the arguments have been read. -/
structure Progress where
  options : Options := {}
  /-- A target whose value was not looked at yet, or has not come yet. -/
  waiting : Option (Target × Option String) := none
  /-- Whether an input was named. -/
  hasInput : Bool := false
  /-- Whether the end of the options was marked. -/
  onlyInputs : Bool := false
deriving Repr, DecidableEq

namespace Progress

/-- Looks at the value that waits. One that has not come is missing. -/
def settle (p : Progress) : Except Refusal Progress :=
  match p.waiting with
  | none => .ok p
  | some (target, none) => .error (.invalidValue target.name)
  | some (target, some value) => do
    let options ← p.options.assign target value
    pure { p with options, waiting := none }

/-- Reads an input. -/
def readInput (p : Progress) (argument : String) : Except Refusal Progress :=
  if p.hasInput then .error (.unknownArgument argument)
  else do
    let p ← p.settle
    pure { p with waiting := some (.input, some argument), hasInput := true }

/-- Turns a switch on. -/
def turnOn (p : Progress) (switch : Switch) : Except Refusal Progress := do
  let p ← p.settle
  let options ← p.options.turnOn switch
  pure { p with options }

/-- Turns the switches of some letters on, one after another. -/
def turnOnLetters (p : Progress) (argument : String) : List Char → Except Refusal Progress
  | [] => .ok p
  | letter :: letters =>
    match Switch.ofLetter? letter with
    | none => .error (.unknownArgument argument)
    | some switch => do
      let p ← p.turnOn switch
      p.turnOnLetters argument letters

/-- Reads a long name, perhaps with a value behind an equals sign. -/
def readLong (p : Progress) (argument name : String) (value : Option String) :
    Except Refusal Progress :=
  match Target.ofLong? name, Switch.ofLong? name, value with
  | some target, _, some value => do
    let p ← p.settle
    let options ← p.options.assign target value
    pure { p with options }
  | some target, _, none => do
    let p ← p.settle
    pure { p with waiting := some (target, none) }
  | none, some switch, none => p.turnOn switch
  | none, some switch, some _ => .error (.tooManyValues switch.name)
  | none, none, _ => .error (.unknownArgument argument)

/-- Parts a long argument at its first equals sign. -/
def splitValue (argument : List Char) : String × Option String :=
  let name := argument.takeWhile (· ≠ '=')
  match argument.dropWhile (· ≠ '=') with
  | [] => (String.ofList name, none)
  | _ :: value => (String.ofList name, some (String.ofList value))

/-- Reads an argument that is no option: the value that is waited for, or an input. -/
def readPlain (p : Progress) (argument : String) : Except Refusal Progress :=
  match p.waiting with
  | some (target, none) => .ok { p with waiting := some (target, some argument) }
  | _ => p.readInput argument

/-- Reads the next argument. -/
def read (p : Progress) (argument : String) : Except Refusal Progress :=
  if p.onlyInputs then p.readInput argument
  else
    match argument.toList with
    | ['-', '-'] => .ok { p with onlyInputs := true }
    | '-' :: '-' :: rest =>
      let (name, value) := splitValue rest
      p.readLong argument name value
    | '-' :: letter :: letters => p.turnOnLetters argument (letter :: letters)
    | _ => p.readPlain argument

end Progress

/-- What a list of arguments asks for. -/
def Options.ofArguments (arguments : List String) : Except Refusal Options := do
  let progress ← arguments.foldlM Progress.read {}
  let progress ← progress.settle
  pure progress.options

end CommandLine
end CssLex
