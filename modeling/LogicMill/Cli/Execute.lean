import LogicMill.Cli.Batch
import LogicMill.Cli.Dialogue

/-! # Invocations

* `run`: an invocation with options that were understood.
* `execute`: an invocation from its arguments to its exit status.
-/

namespace LogicMill.Cli
set_option autoImplicit false

/-- Carries out an invocation: a dialogue if the options come to one, and else a single run. -/
def run (o : Options) (stdin : Input) (site : Site) : Site × Option Failure :=
  match Setup.ofOptions o site with
  | .error e => (site, some e)
  | .ok (setup, files) =>
    let site := { site with files }
    match setup.load stdin site with
    | .error e => (site, some e)
    | .ok (p, loaded) =>
      if setup.options.interactive then
        setup.converse p stdin.failure setup.options.steps (site.lines stdin) loaded
      else setup.batch p stdin loaded

/-- Ends an invocation: a failure is reported and gives the exit status. Errors in the arguments are
reported with the usage. -/
def conclude (atLength : Bool) : Site × Option Failure → Nat × Site
  | (site, none) => (0, site)
  | (site, some e) =>
    let site := match e with
      | .usage _ => site.complain (utf8 "usage: " ++ usage ++ utf8 "\n")
      | _ => site
    (e.status, site.report atLength e)

/-- Shows the help text. If it cannot be shown, the error stream says why. -/
def showHelp (site : Site) : Site :=
  let r := site.stdout.put help
  let site := { site with stdout := r.device }
  match r.failure with
  | some cause => site.complain (cause ++ utf8 "\n")
  | none => site

/-- The error of an argument that is no flag. -/
def strayOperand (operand : Bytes) : Failure :=
  .trouble ⟨utf8 "unknown command " ++ Text.quote operand ++ utf8 " for " ++ Text.quote (utf8 "mill"), []⟩

/-- Carries out the invocation with the given arguments. The result is the exit status and what has
become of the files and streams. -/
def execute (args : List Bytes) (stdin : Input) (site : Site) : Nat × Site :=
  match Options.parse Flag.all args with
  | .error e => conclude false (site, some (.usage e.message))
  | .ok o =>
    if o.help then (0, showHelp site)
    else
      match o.operands with
      | operand :: _ => conclude o.debug (site, some (strayOperand operand))
      | [] => conclude o.debug (run o stdin site)

end LogicMill.Cli
