import LogicMill.Cli.Flag

/-! # Options of an invocation

* `Options`: what the arguments ask for. An option that may also be set elsewhere has a value only
  if it was given.
* `Options.set`: the options after one more flag with its value.
* `Options.readName`, `Options.readGroup`: the flags in one argument.
* `Options.parse`: the options given by all arguments. Of several values for a flag the last one
  counts.
-/

namespace LogicMill.Cli
set_option autoImplicit false

/-- What the arguments of an invocation ask for. -/
structure Options where
  program : Bytes := []
  tape : Bytes := []
  output : Bytes := []
  steps : Bool := false
  interactive : Bool := false
  trace : Bool := false
  dump : Bool := false
  debug : Bool := false
  help : Bool := false
  config : Bytes := []
  logFile : Option Bytes := none
  logLevel : Option Bytes := none
  stepLimit : Option Int := none
  tapeSize : Option Int := none
  underscoreBlank : Option Bool := none
  /-- The arguments that are no flags, in order. -/
  operands : List Bytes := []
deriving Repr, DecidableEq

namespace Options

/-! ## Values -/

def setText (o : Options) (value : Bytes) : Flag → Options
  | .program => { o with program := value }
  | .tape => { o with tape := value }
  | .output => { o with output := value }
  | .config => { o with config := value }
  | .logFile => { o with logFile := some value }
  | .logLevel => { o with logLevel := some value }
  | _ => o

def setNumber (o : Options) (value : Int) : Flag → Options
  | .stepLimit => { o with stepLimit := some value }
  | .tapeSize => { o with tapeSize := some value }
  | _ => o

def setSwitch (o : Options) (value : Bool) : Flag → Options
  | .steps => { o with steps := value }
  | .interactive => { o with interactive := value }
  | .trace => { o with trace := value }
  | .dump => { o with dump := value }
  | .debug => { o with debug := value }
  | .underscoreBlank => { o with underscoreBlank := some value }
  | .help => { o with help := value }
  | _ => o

/-- The options with a flag set to the value that a text stands for. -/
def set (o : Options) (flag : Flag) (value : Bytes) : Except FlagError Options :=
  match flag.kind with
  | .text => .ok (o.setText value flag)
  | .number =>
    match Numeral.literal value with
    | .ok n => .ok (o.setNumber n flag)
    | .error e => .error (.badValue flag value e)
  | .switch =>
    match Text.boolean? value with
    | some b => .ok (o.setSwitch b flag)
    | none => .error (.badValue flag value .badForm)

/-! ## Arguments -/

/-- What one argument has led to: options, and perhaps a flag whose value is the next argument,
with the error that arises if there is none. -/
structure Reading where
  options : Options
  awaited? : Option (Flag × FlagError) := none

/-- Reads a flag given by its name, the argument being two hyphens and `body`. -/
def readName (known : List Flag) (o : Options) (body : Bytes) : Except FlagError Reading :=
  let arg := utf8 "--" ++ body
  if body.head? = none ∨ body.head? = some 0x2D ∨ body.head? = some 0x3D then .error (.badForm arg)
  else
    let (name, value?) := match Bytes.splitAt? 0x3D body with
      | some (name, value) => (name, some value)
      | none => (body, none)
    match Flag.named? known name with
    | none => .error (if name = Flag.help.name then .helpWanted else .unknownName name)
    | some flag =>
      match value? with
      | some value => (o.set flag value).map fun o => { options := o }
      | none =>
        if flag.kind = .switch then .ok { options := o.setSwitch true flag }
        else .ok { options := o, awaited? := some (flag, .noValue arg) }

/-- A group that is left to other tools. -/
def isReserved (group : Bytes) : Bool := (utf8 "test.").isPrefixOf group

/-- Reads a group of flags given by their letters. A switch is followed by more letters, any other
flag by its value, which an equals sign may set apart. -/
def readGroup (known : List Flag) (o : Options) : Bytes → Except FlagError Reading
  | [] => .ok { options := o }
  | letter :: rest =>
    if isReserved (letter :: rest) then .ok { options := o }
    else
      match Flag.lettered? known letter with
      | none =>
        .error (if some letter = Flag.help.letter? then .helpWanted
          else .unknownLetter letter (letter :: rest))
      | some flag =>
        if rest.head? = some 0x3D ∧ 1 < rest.length then
          (o.set flag rest.tail).map fun o => { options := o }
        else if flag.kind = .switch then readGroup known (o.setSwitch true flag) rest
        else if rest = [] then
          .ok { options := o, awaited? := some (flag, .noValueInGroup letter [letter]) }
        else (o.set flag rest).map fun o => { options := o }

/-- Reads the flags of one argument that begins with a hyphen, here left out. -/
def readArgument (known : List Flag) (o : Options) : Bytes → Except FlagError Reading
  | 0x2D :: body => readName known o body
  | group => readGroup known o group

/-- The options given by arguments, after those in `o`. Two hyphens end the flags, and a single one
is no flag. -/
def parseFrom (known : List Flag) : Options → List Bytes → Except FlagError Options
  | o, [] => .ok o
  | o, arg :: rest =>
    match arg with
    | [0x2D, 0x2D] => .ok { o with operands := o.operands ++ rest }
    | 0x2D :: b :: body =>
      match readArgument known o (b :: body) with
      | .error e => .error e
      | .ok ⟨o, none⟩ => parseFrom known o rest
      | .ok ⟨o, some (flag, missing)⟩ =>
        match rest with
        | [] => .error missing
        | value :: rest =>
          match o.set flag value with
          | .error e => .error e
          | .ok o => parseFrom known o rest
    | operand => parseFrom known { o with operands := o.operands ++ [operand] } rest

/-- The options given by the arguments of an invocation, of which the flags in `known` are
understood. -/
def parse (known : List Flag) (args : List Bytes) : Except FlagError Options :=
  parseFrom known {} args

end Options

end LogicMill.Cli
