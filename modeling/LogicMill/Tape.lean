import LogicMill.Ring
import LogicMill.Symbol
import LogicMill.Trouble

/-! # Tapes

A tape is a ring of cells with a head on one of them.

* `Tape`, `Tape.new`, `Tape.size`.
* `Tape.read`, `Tape.write`, `Tape.setHead`: at any 64-bit position, modulo the size.
* `Tape.current`, `Tape.writeHead`, `Tape.shift`: at the head.
* `Tape.seed`: a cleared tape that holds a given input from cell 0 on.
* `TapeError`: a size out of range, or an input with more symbols than cells.
-/

namespace LogicMill
set_option autoImplicit false

/-- A ring of cells with a head. -/
structure Tape where
  cells : Array Symbol
  head : Nat
  size_le : cells.size ≤ maxTapeSize
  head_lt : head < cells.size

/-- Why a tape cannot be made or seeded. -/
inductive TapeError where
  | badSize (size : Int)
  | inputTooLong (symbols cells : Nat)
deriving Repr, DecidableEq

namespace TapeError

def capacity? : TapeError → Option Capacity
  | .badSize _ => some .tapeSize
  | .inputTooLong _ _ => none

def trouble : TapeError → Trouble
  | .badSize n => ⟨Capacity.tapeSize.message, [utf8 "invalid tape size " ++ Bytes.ofInt n]⟩
  | .inputTooLong symbols cells =>
    ⟨utf8 "tape input too long",
      [Bytes.ofNat symbols ++ utf8 " symbols for " ++ Bytes.ofNat cells ++ utf8 " cells"]⟩

end TapeError

namespace Tape

/-- The number of cells. -/
def size (t : Tape) : Nat := t.cells.size

theorem size_pos (t : Tape) : 0 < t.cells.size := Nat.lt_of_le_of_lt (Nat.zero_le _) t.head_lt

/-- A blank tape of the given size with the head on cell 0. -/
def new (size : Int) : Except TapeError Tape :=
  if h : 0 < size ∧ size ≤ maxTapeSize then
    .ok {
      cells := Array.replicate size.toNat Symbol.blank
      head := 0
      size_le := by simp; omega
      head_lt := by simp; omega }
  else .error (.badSize size)

/-- The cell that a position names. -/
def cellOf (t : Tape) (pos : Int64) : Nat := Ring.cellOf t.cells.size pos

theorem cellOf_lt (t : Tape) (pos : Int64) : t.cellOf pos < t.cells.size :=
  Ring.cellOf_lt t.size_pos t.size_le pos

/-- The symbol at a position. -/
def read (t : Tape) (pos : Int64) : Symbol :=
  have := t.cellOf_lt pos
  t.cells[t.cellOf pos]

/-- The tape with another symbol at a position. -/
def write (t : Tape) (pos : Int64) (s : Symbol) : Tape where
  cells := t.cells.set (t.cellOf pos) s (t.cellOf_lt pos)
  head := t.head
  size_le := by simpa using t.size_le
  head_lt := by simpa using t.head_lt

/-- The tape with its head at a position. -/
def setHead (t : Tape) (pos : Int64) : Tape :=
  { t with head := t.cellOf pos, head_lt := t.cellOf_lt pos }

/-- The symbol under the head. -/
def current (t : Tape) : Symbol :=
  have := t.head_lt
  t.cells[t.head]

/-- The tape with another symbol under the head. -/
def writeHead (t : Tape) (s : Symbol) : Tape where
  cells := t.cells.set t.head s t.head_lt
  head := t.head
  size_le := by simpa using t.size_le
  head_lt := by simpa using t.head_lt

/-- The tape with its head moved by an offset. -/
def shift (t : Tape) (offset : Int8) : Tape :=
  t.setHead (Int64.ofNat t.head + offset.toInt64)

/-- The tape cleared, with the input in the cells from 0 on and the head on cell 0. -/
def seed (t : Tape) (input : List Symbol) : Except TapeError Tape :=
  if h : input.length ≤ t.cells.size then
    .ok {
      cells := input.toArray ++ Array.replicate (t.cells.size - input.length) Symbol.blank
      head := 0
      size_le := by
        have := t.size_le
        simp
        omega
      head_lt := by
        have := t.size_pos
        simp
        omega }
  else .error (.inputTooLong input.length t.cells.size)

end Tape

end LogicMill
