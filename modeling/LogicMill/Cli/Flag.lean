import LogicMill.Text.Numeral
import LogicMill.Text.Quoted

/-! # Flags of the command line

* `Flag`: the flags, each with a name, perhaps a letter, and the kind of its value.
* `Flag.named?`, `Flag.lettered?`: look a flag up among those that are known.
* `FlagError`: what is wrong with an argument that should be a flag, and its `message`.
-/

namespace LogicMill.Cli
set_option autoImplicit false

/-- The flags of the command line. -/
inductive Flag where
  | program
  | tape
  | output
  | steps
  | interactive
  | trace
  | dump
  | debug
  | config
  | logFile
  | logLevel
  | stepLimit
  | tapeSize
  | underscoreBlank
  | help
deriving Repr, DecidableEq

/-- What the value of a flag is. A switch is turned on by being named. -/
inductive Kind where
  | text
  | number
  | switch
deriving Repr, DecidableEq

namespace Flag

/-- The flags that concern a run. -/
def working : List Flag :=
  [.program, .tape, .output, .steps, .interactive, .trace, .dump, .debug, .config, .logFile,
    .logLevel, .stepLimit, .tapeSize, .underscoreBlank]

/-- All flags. -/
def all : List Flag := .help :: working

def name : Flag → Bytes
  | .program => utf8 "program"
  | .tape => utf8 "tape"
  | .output => utf8 "output"
  | .steps => utf8 "steps"
  | .interactive => utf8 "interactive"
  | .trace => utf8 "trace"
  | .dump => utf8 "dump"
  | .debug => utf8 "debug"
  | .config => utf8 "config"
  | .logFile => utf8 "log-file"
  | .logLevel => utf8 "log-level"
  | .stepLimit => utf8 "steps-limit"
  | .tapeSize => utf8 "tape-size"
  | .underscoreBlank => utf8 "underscore-blank"
  | .help => utf8 "help"

/-- The letter that stands for the flag. -/
def letter? : Flag → Option UInt8
  | .program => some 0x70
  | .tape => some 0x74
  | .output => some 0x6F
  | .steps => some 0x73
  | .interactive => some 0x69
  | .help => some 0x68
  | _ => none

def kind : Flag → Kind
  | .program | .tape | .output | .config | .logFile | .logLevel => .text
  | .stepLimit | .tapeSize => .number
  | .steps | .interactive | .trace | .dump | .debug | .underscoreBlank | .help => .switch

/-- The flag as it is shown: its letter, if it has one, and its name. -/
def title (flag : Flag) : Bytes :=
  match flag.letter? with
  | some letter => utf8 "-" ++ [letter] ++ utf8 ", --" ++ flag.name
  | none => utf8 "--" ++ flag.name

/-- The known flag with a name. -/
def named? (known : List Flag) (name : Bytes) : Option Flag := known.find? fun f => f.name == name

/-- The known flag with a letter. -/
def lettered? (known : List Flag) (letter : UInt8) : Option Flag :=
  known.find? fun f => f.letter? == some letter

end Flag

/-- What is wrong with an argument. A group is a number of flags given by their letters, shown from
the letter in question on. -/
inductive FlagError where
  | badForm (arg : Bytes)
  | unknownName (name : Bytes)
  | unknownLetter (letter : UInt8) (group : Bytes)
  | noValue (arg : Bytes)
  | noValueInGroup (letter : UInt8) (group : Bytes)
  | badValue (flag : Flag) (value : Bytes) (refusal : Numeral.Refusal)
  | helpWanted
deriving Repr, DecidableEq

/-- What a value of some kind is called when it cannot be read. -/
def Kind.reading : Kind → Bytes
  | .switch => utf8 "strconv.ParseBool"
  | _ => utf8 "strconv.ParseInt"

def FlagError.message : FlagError → Bytes
  | .badForm arg => utf8 "bad flag syntax: " ++ arg
  | .unknownName name => utf8 "unknown flag: --" ++ name
  | .unknownLetter letter group =>
    utf8 "unknown shorthand flag: " ++ Text.quoteByte letter ++ utf8 " in -" ++ group
  | .noValue arg => utf8 "flag needs an argument: " ++ arg
  | .noValueInGroup letter group =>
    utf8 "flag needs an argument: " ++ Text.quoteByte letter ++ utf8 " in -" ++ group
  | .badValue flag value refusal =>
    utf8 "invalid argument " ++ Text.quote value ++ utf8 " for " ++ Text.quote flag.title ++
      utf8 " flag: " ++ flag.kind.reading ++ utf8 ": parsing " ++ Text.quote value ++ utf8 ": " ++
      refusal.text
  | .helpWanted => utf8 "pflag: help requested"

end LogicMill.Cli
