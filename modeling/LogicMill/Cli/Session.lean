import LogicMill.Cli.Failure
import LogicMill.Cli.Site
import LogicMill.Rules.Assembler
import LogicMill.Rules.Listing

/-! # Loading and running within an invocation

* `Options.checked`: options that go together. If no tape is given, it is taken from the standard input, or
  a dialogue is held if that is a terminal (`Options.completed`).
* `Setup`: the options, settings and journal of an invocation.
* `Setup.load`: the program that is run.
* `Setup.run`: a run of the program on a tape text.
* `writeDump`, `Setup.dump`, `Setup.countSteps`: what is told after a run.
-/

namespace LogicMill.Cli
set_option autoImplicit false

/-! ## Options that go together -/

/-- The options with what is meant if neither a tape nor a dialogue is asked for: the standard input is the
tape, but at a terminal there is a dialogue. -/
def Options.completed (o : Options) (terminal : Bool) : Options :=
  if o.tape = [] ∧ ¬ o.interactive then
    if terminal then { o with interactive := true } else { o with tape := standardStream }
  else o

/-- Options that make sense together. The standard input serves for one of program, tape and dialogue
only. -/
def Options.checked (o : Options) (terminal : Bool) : Except Failure Options :=
  if o.program = [] then .error (.usage (utf8 "-p/--program: expected filename"))
  else if o.tape = [] ∧ o.program = standardStream then
    .error (.usage (utf8 "-t/--tape: expected filename"))
  else
    let o := o.completed terminal
    if o.program = standardStream ∧ o.tape = standardStream then
      .error (.usage (utf8 "-t/--tape: conflicting filename"))
    else if o.interactive ∧ o.program = standardStream then
      .error (.usage (utf8 "-i/--interactive: program cannot be read from stdin"))
    else .ok o

/-! ## Setups -/

/-- What is fixed before a program is loaded. -/
structure Setup where
  options : Options
  settings : Settings
  journal : Journal

/-- The setup of an invocation with the given options. The log file, if there is one, is made. -/
def Setup.ofOptions (o : Options) (site : Site) : Except Failure (Setup × Files) :=
  match o.checked site.isTerminal with
  | .error e => .error e
  | .ok options =>
    match Settings.effective site.files options with
    | .error e => .error (.trouble e.trouble)
    | .ok settings =>
      match Journal.ofSettings site.files settings with
      | .error t => .error (.trouble t)
      | .ok (journal, files) => .ok (⟨options, settings, journal⟩, files)

/-! ## Records -/

/-- The record of a program that was loaded. -/
def loadRecord (source : Source) (p : Program) : Log.Record where
  level := .info
  title := utf8 "program loaded"
  fields := [
    (utf8 "source", .text source.name),
    (utf8 "literal", .truth source.literal),
    (utf8 "instructions", .number p.size),
    (utf8 "states", .number p.states.size)]

/-- The record of one step of a run. -/
def stepRecord (f : Footprint) : Log.Record where
  level := .debug
  title := utf8 "step"
  fields := [
    (utf8 "n", .number f.number),
    (utf8 "head", .number f.head),
    (utf8 "state", .text f.state),
    (utf8 "symbol", .text f.symbol.text),
    (utf8 "next", .text f.next),
    (utf8 "write", .text f.write.text),
    (utf8 "move", .text f.move.text)]

/-- The record of a finished run. -/
def runRecord (m : Machine) (o : Outcome) : Log.Record where
  level := .info
  title := utf8 "run complete"
  fields := [
    (utf8 "outcome", .text o.status.text),
    (utf8 "steps", .number o.steps),
    (utf8 "state", .text o.stateName),
    (utf8 "head", .number m.config.tape.head)]

/-! ## Dumps -/

/-- What is told about a machine after a run. -/
def dumpFields (m : Machine) (o : Outcome) : List (Bytes × Bytes) := [
  (utf8 "outcome", o.status.text),
  (utf8 "steps", Bytes.ofNat o.steps),
  (utf8 "state", o.stateName),
  (utf8 "symbol", o.symbol.text),
  (utf8 "head", Bytes.ofNat m.config.tape.head),
  (utf8 "tape", Bytes.ofNat m.config.tape.size)]

/-- The parts of one line of a dump, as they are written one by one. -/
def dumpParts (field : Bytes × Bytes) : List Bytes := [field.1, utf8 "\t", field.2, utf8 "\n"]

/-- Writes a dump, one field to a line. -/
def writeDump {σ : Type} [Device σ] (m : Machine) (o : Outcome) (w : Sticky σ) : Sticky σ :=
  w.putAll ((dumpFields m o).flatMap dumpParts)

namespace Setup

/-! ## Programs and runs -/

/-- Loads the program. -/
def load (setup : Setup) (stdin : Input) (site : Site) : Except Failure (Program × Site) :=
  match Source.ofArgument site.files stdin setup.options.program with
  | .error t => .error (.trouble (t.within (utf8 "-p/--program")))
  | .ok source =>
    match Rules.assemble source.name source.input.text source.input.failure with
    | .error e => .error (.trouble (e.trouble.within (utf8 "parse error")))
    | .ok p => .ok (p, site.log setup.journal [loadRecord source p])

/-- The machine that is run on a tape text: on a new tape, within the step limit, and with a trace if
one is wanted. -/
def machine (setup : Setup) (p : Program) (text : Bytes) : Except Trouble Machine :=
  match Tape.new setup.settings.tape with
  | .error e => .error e.trouble
  | .ok blank =>
    match blank.seed (Symbol.readLine setup.settings.underscoreBlank text) with
    | .error e => .error (e.trouble.within (utf8 "-t/--tape"))
    | .ok tape =>
      let trace := if setup.options.trace then [Setting.log setup.journal.threshold] else []
      match Machine.create (some p) (some tape) (.stepLimit setup.settings.steps :: trace) with
      | .error e => .error ⟨e.message, []⟩
      | .ok m => .ok m

/-- Runs a program on a tape text and logs the run. -/
def run (setup : Setup) (p : Program) (text : Bytes) (site : Site) :
    Except Trouble (Machine × Outcome × Site) :=
  match setup.machine p text with
  | .error t => .error t
  | .ok m =>
    let (outcome, trace, m) := m.run
    let records := trace.toList.map stepRecord ++ [runRecord m outcome]
    .ok (m, outcome, site.log setup.journal records)

/-! ## After a run -/

/-- Writes a dump to the error stream if one is wanted. -/
def dump (setup : Setup) (m : Machine) (o : Outcome) (site : Site) : Site × Option Trouble :=
  if setup.options.dump then
    let w := writeDump m o ⟨site.stderr, none⟩
    ({ site with stderr := w.device }, w.failure.map fun t => t.within (utf8 "dump"))
  else (site, none)

/-- Tells the number of steps if that is wanted. -/
def countSteps (steps : Bool) (o : Outcome) (site : Site) : Site :=
  if steps then site.complain (Bytes.ofNat o.steps ++ utf8 " steps\n") else site

end Setup

end LogicMill.Cli
