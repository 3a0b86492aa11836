import LogicMill.Cli.Help
import LogicMill.Cli.Session
import LogicMill.Text.Utf8

/-! # Dialogues

In a dialogue each line of the input is a command or a tape to be run on.

* `Dialogue.lines`: the lines of an input. A line that does not fit into a buffer comes in pieces.
  `Site.lines` are those of a dialogue, which at a terminal are typed.
* `Dialogue.Request`: what a line asks for.
* `Setup.answer`: a run on one line. A run that does not halt is reported, and the dialogue goes on.
* `Setup.converse`: the whole dialogue.
-/

namespace LogicMill.Cli
set_option autoImplicit false

namespace Dialogue

/-! ## Lines -/

/-- The number of bytes in which the end of a line is looked for. -/
def bufferSize : Nat := 4096

/-- The lines of an input after those in `done`, the last of which comes first. A line of `bufferSize`
bytes or more is cut, but not between the two bytes of a line end. At the end of the input there is no
line if nothing is left. -/
def linesFrom (done : List Bytes) (text : Bytes) : List Bytes :=
  if h : text = [] then done.reverse
  else
    have := List.length_pos_iff.2 h
    match (text.take bufferSize).span (· != 0x0A) with
    | (line, _ :: _) => linesFrom (Text.dropReturn line :: done) (text.drop (line.length + 1))
    | (line, []) =>
      if bufferSize ≤ line.length then
        if line.getLast? = some 0x0D then
          linesFrom (line.dropLast :: done) (text.drop (bufferSize - 1))
        else linesFrom (line :: done) (text.drop bufferSize)
      else (text :: done).reverse
termination_by text.length
decreasing_by
  all_goals
    simp only [bufferSize, List.length_drop]
    omega

/-- The lines of an input. -/
def lines (text : Bytes) : List Bytes := linesFrom [] text

end Dialogue

/-- The lines of a dialogue: those typed at a terminal, or else those of the standard input. -/
def Site.lines (s : Site) (stdin : Input) : List Bytes := s.typed.getD (Dialogue.lines stdin.text)

namespace Dialogue

/-! ## Requests -/

/-- What a line asks for. -/
inductive Request where
  | quit
  | help
  | toggleSteps
  | listing
  | run
deriving Repr, DecidableEq

/-- What a line asks for. White space around a command does not matter; a line that is no command is
a tape. -/
def Request.ofLine (line : Bytes) : Request :=
  let word := Text.trim line
  if word = utf8 ":quit" ∨ word = utf8 ":q" then .quit
  else if word = utf8 ":help" ∨ word = utf8 ":h" then .help
  else if word = utf8 ":steps" then .toggleSteps
  else if word = utf8 ":program" then .listing
  else .run

end Dialogue

/-! ## Answers -/

/-- Reports a failure on a line of the error stream. -/
def Site.report (s : Site) (atLength : Bool) (e : Failure) : Site :=
  s.complain (utf8 "error: " ++ e.text atLength ++ utf8 "\n")

/-- Asks for a line when no more come: the input has ended, or it cannot be read on. -/
def Site.leave (s : Site) (failure : Option Bytes) : Site × Option Failure :=
  match failure with
  | none => (s.prompt.print (utf8 "\n"), none)
  | some cause => (s.prompt, some (.trouble ⟨cause, [utf8 "prompt failed"]⟩))

namespace Setup

/-- Runs the program on a line. The result is a failure only if the dialogue cannot go on. -/
def answer (setup : Setup) (p : Program) (steps : Bool) (line : Bytes) (site : Site) :
    Site × Option Failure :=
  match setup.run p line site with
  | .error t => (site.report false (.trouble t), none)
  | .ok (m, o, site) =>
    match setup.dump m o site with
    | (site, some t) => (site, some (.trouble t))
    | (site, none) =>
      match Failure.ofOutcome? o with
      | some e => (site.report false e, none)
      | none =>
        let (site, failure) := (countSteps steps o site).writeTape .stdout m.config.tape
        (site, failure.map .trouble)

/-- Writes the program to the standard output. -/
def list (p : Program) (site : Site) : Site × Option Failure :=
  let w := p.writeListing site.stdout
  ({ site with stdout := w.device }, w.failure.map .trouble)

/-- Answers lines until one asks to quit, or there are no more. The number of steps is told or not
as `steps` says. -/
def converse (setup : Setup) (p : Program) (failure : Option Bytes) :
    (steps : Bool) → (lines : List Bytes) → Site → Site × Option Failure
  | _, [], site => site.leave failure
  | steps, line :: rest, site =>
    match Dialogue.Request.ofLine line with
    | .quit => (site.prompt, none)
    | .help => setup.converse p failure steps rest (site.prompt.print dialogueHelp)
    | .toggleSteps =>
      setup.converse p failure (!steps) rest
        (site.prompt.print (utf8 "steps: " ++ Text.ofBool (!steps) ++ utf8 "\n"))
    | .listing =>
      match list p site.prompt with
      | (site, some e) => (site, some e)
      | (site, none) => setup.converse p failure steps rest site
    | .run =>
      match setup.answer p steps line site.prompt with
      | (site, some e) => (site, some e)
      | (site, none) => setup.converse p failure steps rest site

end Setup

end LogicMill.Cli
