import LogicMill.Text.Bytes

/-! # Texts that explain the command line

* `usage`: the line shown with an error in the arguments.
* `help`: the text shown on request.
* `dialogueHelp`: the text shown on request in a dialogue.
-/

namespace LogicMill.Cli
set_option autoImplicit false

/-- The usage of the command. -/
def usage : Bytes := utf8 "mill -p PROG [-t TAPE] [-o OUT] [-s]"

/-- The help text of the command. -/
def help : Bytes := Bytes.join (utf8 "\n") [
  utf8 "Logic Mill engine https://mng.quest/",
  utf8 "",
  utf8 "Runs the transition rules of PROG on TAPE and writes the final tape to OUT.",
  utf8 "PROG, TAPE and OUT are file names, or \"-\" for the standard input or output.",
  utf8 "PROG and TAPE may also be given as literal text.",
  utf8 "",
  utf8 "Usage:",
  utf8 "  " ++ usage ++ utf8 " [flags]",
  utf8 "",
  utf8 "Flags:",
  utf8 "      --config file        TOML configuration file",
  utf8 "      --debug              print errors with stack traces",
  utf8 "      --dump               dump the machine state upon exit",
  utf8 "  -h, --help               help for mill",
  utf8 "  -i, --interactive        read tapes from the terminal, one per line",
  utf8 "      --log-file file      also write JSON logs to file",
  utf8 "      --log-level string   log level: debug, info, warn or error",
  utf8 "  -o, --output string      output file",
  utf8 "  -p, --program string     program text or file",
  utf8 "  -s, --steps              log steps taken",
  utf8 "      --steps-limit int    maximum number of steps (default 1000000)",
  utf8 "  -t, --tape string        tape text or file",
  utf8 "      --tape-size int      tape size in cells (default 1048576)",
  utf8 "      --trace              log every step",
  utf8 "      --underscore-blank   read '_' in tape text as a blank cell",
  utf8 ""]

/-- The help text of a dialogue. -/
def dialogueHelp : Bytes := Bytes.join (utf8 "\n") [
  utf8 "enter a tape to run the program on it, or one of:",
  utf8 "  :program  list the program",
  utf8 "  :steps    toggle step count reporting",
  utf8 "  :quit     exit",
  utf8 ""]

end LogicMill.Cli
