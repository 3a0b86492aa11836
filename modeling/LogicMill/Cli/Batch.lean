import LogicMill.Cli.Session

/-! # A single run

* `Setup.tapeText`: the tape text that the options name.
* `Setup.finish`: what follows a run. The tape is written only if the machine halted.
* `Setup.batch`: a run on that text, from opening the tape to writing the result.
-/

namespace LogicMill.Cli.Setup
set_option autoImplicit false

/-- The first line of the tape that the options name. -/
def tapeText (setup : Setup) (stdin : Input) (site : Site) : Except Trouble Bytes :=
  match Source.ofArgument site.files stdin setup.options.tape with
  | .error t => .error (t.within (utf8 "-t/--tape"))
  | .ok source =>
    match source.input.readLine with
    | .error t => .error (t.within (utf8 "-t/--tape"))
    | .ok line => .ok line

/-- Tells about a run and writes the tape if the machine halted. -/
def finish (setup : Setup) (target : Target) (m : Machine) (o : Outcome) (site : Site) :
    Site × Option Failure :=
  match setup.dump m o site with
  | (site, some t) => (site, some (.trouble t))
  | (site, none) =>
    match Failure.ofOutcome? o with
    | some e => (site, some e)
    | none =>
      let (site, failure) := (countSteps setup.options.steps o site).writeTape target m.config.tape
      (site, failure.map .trouble)

/-- Runs a program once. The output is opened before the run and closed in the end; that it cannot be
closed is reported if nothing else is. -/
def batch (setup : Setup) (p : Program) (stdin : Input) (site : Site) : Site × Option Failure :=
  match setup.tapeText stdin site with
  | .error t => (site, some (.trouble t))
  | .ok text =>
    match Target.ofArgument site.files setup.options.output with
    | .error t => (site, some (.trouble (t.within (utf8 "-o/--output"))))
    | .ok (target, files) =>
      let site := { site with files }
      match setup.run p text site with
      | .error t => (site, some (.trouble t))
      | .ok (m, o, site) =>
        match setup.finish target m o site with
        | (site, some e) => (site, some e)
        | (site, none) => (site, (site.close target).map .trouble)

end LogicMill.Cli.Setup
