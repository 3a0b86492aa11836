import LogicMill.Capacity
import LogicMill.Text.Utf8

/-! # Positions and reports

* `Position`: a place in a named text, with its offset in bytes and its line and column.
* `Position.start`, `Position.after`: the place before the first letter, and after a letter.
* `Explained`: faults that have a message, and that may stem from a limit.
* `Located`, `Report`: a fault at a place, and a list of these in order.
-/

namespace LogicMill.Rules
set_option autoImplicit false

/-- A place in a text: byte offsets count from 0, lines and columns from 1, and a column is one
letter wide. -/
structure Position where
  file : Bytes
  offset : Int
  line : Int
  column : Int
deriving Repr, DecidableEq

namespace Position

/-- The place of the first letter of a text. -/
def start (file : Bytes) : Position := ⟨file, 0, 1, 1⟩

/-- The place after a letter that stands here. Only a line feed begins a new line. -/
def after (p : Position) (letter : Utf8.Letter) : Position :=
  if letter = .char '\n' then
    { p with offset := p.offset + letter.size, line := p.line + 1, column := 1 }
  else { p with offset := p.offset + letter.size, column := p.column + 1 }

/-- A place in writing. A text without a name is called `<input>`, and a place without a line is
the whole text. -/
def text (p : Position) : Bytes :=
  let file := if p.file = [] then utf8 "<input>" else p.file
  if 0 < p.line then
    file ++ utf8 ":" ++ Bytes.ofInt p.line ++ utf8 ":" ++ Bytes.ofInt p.column
  else file

end Position

/-- Faults that can be told. -/
class Explained (α : Type) where
  message : α → Bytes
  capacity? : α → Option Capacity

/-- A fault at a place. -/
structure Located (α : Type) where
  pos : Position
  fault : α
deriving Repr, DecidableEq

/-- The place and the message of a fault. -/
def Located.message {α : Type} [Explained α] (e : Located α) : Bytes :=
  e.pos.text ++ utf8 ": " ++ Explained.message e.fault

/-- Faults in the order in which they were found. -/
abbrev Report (α : Type) := List (Located α)

namespace Report

variable {α : Type} [Explained α]

/-- One line for each fault. -/
def message (r : Report α) : Bytes := Bytes.join (utf8 "\n") (r.map Located.message)

/-- The limit that the first fault stems from, if it stems from one. -/
def capacity? (r : Report α) : Option Capacity :=
  match r with
  | [] => none
  | e :: _ => Explained.capacity? e.fault

end Report

/-- A fault given by its text, or a limit with the context in which it was reached. -/
inductive Remark where
  | note (text : Bytes)
  | limit (context : Bytes) (capacity : Capacity)
deriving Repr, DecidableEq

instance : Explained Remark where
  message
    | .note text => text
    | .limit context capacity => context ++ utf8 ": " ++ capacity.message
  capacity?
    | .note _ => none
    | .limit _ capacity => some capacity

end LogicMill.Rules
