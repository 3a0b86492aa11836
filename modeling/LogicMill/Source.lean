import LogicMill.Files
import LogicMill.Input

/-! # Texts given on the command line

An argument names a file, or is `-` for the standard input or output, or, if no such file can be
opened for reading, is the text itself.

* `Source.ofArgument`: the text that an argument stands for, in UTF-8.
* `Target.ofArgument`: where an argument wants output to go.
-/

namespace LogicMill
set_option autoImplicit false

/-- The argument for the standard input or output. -/
def standardStream : Bytes := utf8 "-"

/-- A text with the name under which its faults are reported. -/
structure Source where
  name : Bytes
  /-- The argument was the text itself. -/
  literal : Bool
  input : Input
deriving Repr, DecidableEq

/-- The text that an argument stands for. -/
def Source.ofArgument (files : Files) (stdin : Input) (arg : Bytes) : Except Trouble Source :=
  if arg = standardStream then .ok ⟨utf8 "<stdin>", false, stdin.decode⟩
  else
    match files.openRead arg with
    | .ok (.file content) => .ok ⟨arg, false, Input.decode ⟨content, none⟩⟩
    | .ok .directory => .error ⟨arg ++ utf8 " is a directory", []⟩
    | .error e =>
      if arg = [] then .error ⟨e.message arg, [utf8 "open failed"]⟩
      else .ok ⟨utf8 "<text>", true, Input.decode ⟨arg, none⟩⟩

/-- Where output goes: to the standard output or to a file. -/
inductive Target where
  | stdout
  | file (path : List Bytes)
deriving Repr, DecidableEq

/-- Where an argument wants output to go. A file is emptied or made at once. -/
def Target.ofArgument (files : Files) (arg : Bytes) : Except Trouble (Target × Files) :=
  if arg = [] ∨ arg = standardStream then .ok (.stdout, files)
  else
    match files.openWrite true arg with
    | .ok (path, files) => .ok (.file path, files)
    | .error e => .error ⟨e.message arg, [utf8 "create failed"]⟩

end LogicMill
