import LogicMill.Files
import LogicMill.Log.Record
import LogicMill.Settings
import LogicMill.Sink
import LogicMill.Source
import LogicMill.Tape.Render

/-! # Where an invocation works

* `Site`: the files and the two output streams, how an output file behaves (`Outlet`), and what is typed
  if there is a terminal.
* `Site.print`, `Site.complain`: write to the streams, whether they take it or not.
* `Site.prompt`: asks for a line.
* `Site.writeTape`: writes a tape to where it is wanted; `Site.close` closes the output after that.
* `Journal`: which records are logged, and to which file besides the error stream.
-/

namespace LogicMill
set_option autoImplicit false

/-- Writes the content of a tape as a line. -/
def Tape.writeLine {σ : Type} [Device σ] (t : Tape) (w : Sticky σ) : Sticky σ :=
  w.putAll [t.text, utf8 "\n"]

namespace Cli

/-- How a file behaves that output goes to: the number of bytes that it takes, if there is a limit, and
why it cannot be closed, if it cannot. -/
structure Outlet where
  room : Option Nat := none
  closing : Option Bytes := none
deriving Repr, DecidableEq

/-- What an invocation works on: the files, the output streams, and a terminal if there is one. -/
structure Site where
  files : Files
  stdout : Budget := {}
  stderr : Budget := {}
  outlet : Outlet := {}
  /-- The lines that are typed, if the standard input is a terminal. Editing them is left to the terminal. -/
  typed : Option (List Bytes) := none

namespace Site

/-- Whether the standard input is a terminal. -/
def isTerminal (s : Site) : Bool := s.typed.isSome

/-- Writes to the standard output, whether it takes all of it or not. -/
def print (s : Site) (data : Bytes) : Site := { s with stdout := (s.stdout.put data).device }

/-- Writes to the error stream, whether it takes all of it or not. -/
def complain (s : Site) (data : Bytes) : Site := { s with stderr := (s.stderr.put data).device }

/-- The text that asks for a line. -/
def promptText : Bytes := utf8 "tape> "

/-- Asks for a line on the standard output, past any limit on it. -/
def prompt (s : Site) : Site :=
  { s with stdout := { s.stdout with stored := s.stdout.stored.appendList promptText } }

/-- Writes a tape as a line to where it is wanted. -/
def writeTape (s : Site) (target : Target) (t : Tape) : Site × Option Trouble :=
  match target with
  | .stdout =>
    let w := t.writeLine ⟨s.stdout, none⟩
    ({ s with stdout := w.device }, w.failure.map fun e => e.within (utf8 "-o/--output"))
  | .file place =>
    let w := t.writeLine (⟨{ room := s.outlet.room }, none⟩ : Sticky Budget)
    ({ s with files := s.files.overwrite place w.device.bytes },
      w.failure.map fun e => e.within (utf8 "-o/--output"))

/-- Closes the output. The standard output stays open. -/
def close (s : Site) (target : Target) : Option Trouble :=
  match target with
  | .stdout => none
  | .file _ => s.outlet.closing.map fun cause => ⟨cause, [utf8 "-o/--output"]⟩

end Site

/-! ## Logging -/

/-- Where records are logged to: from which level on, and to which file if to any. -/
structure Journal where
  threshold : Log.Level
  file? : Option (List Bytes) := none
deriving Repr, DecidableEq

namespace Journal

/-- The journal that the settings ask for. Its file is made if there is none. -/
def ofSettings (files : Files) (s : Settings) : Except Trouble (Journal × Files) :=
  match Log.Level.read s.level with
  | .error e => .error ⟨e.message s.level, [utf8 "invalid log level " ++ Text.quote s.level]⟩
  | .ok threshold =>
    if s.file = [] then .ok ({ threshold }, files)
    else
      match files.openWrite false s.file with
      | .error e => .error ⟨e.message s.file, [utf8 "log file"]⟩
      | .ok (place, files) => .ok ({ threshold, file? := some place }, files)

/-- The records that are logged. -/
def taken (j : Journal) (records : List Log.Record) : List Log.Record :=
  records.filter fun r => r.level.passes j.threshold

end Journal

/-- Logs records: to the error stream as lines of pairs, and to the file of the journal as JSON. -/
def Site.log (s : Site) (j : Journal) (records : List Log.Record) : Site :=
  let records := j.taken records
  let s := records.foldl (fun s r => s.complain r.line) s
  match j.file? with
  | none => s
  | some place => { s with files := s.files.append place (records.flatMap Log.Record.json) }

end Cli

end LogicMill
