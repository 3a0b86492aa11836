import LogicMill.Symbol

/-! # Instructions

* `StateId`: the number of a state; `StateId.init` and `StateId.halt` are built in.
* `Move`: a head movement, of which `Move.left` and `Move.right` are the proper ones.
* `Instruction`: in state `source` under symbol `read`, write `write`, change to state `target` and
  make the move `move`.
* `Instruction.Valid`: the states are below a given number and the move is a proper one.
-/

namespace LogicMill
set_option autoImplicit false

/-- The number of a state in its table. -/
abbrev StateId := Int

/-- The state in which machines start. -/
def StateId.init : StateId := 0

/-- The state in which machines stop. -/
def StateId.halt : StateId := 1

/-- A head movement, as the number of cells to the right. -/
structure Move where
  offset : Int8
deriving Repr, DecidableEq

namespace Move

def left : Move := ⟨-1⟩

def right : Move := ⟨1⟩

/-- A move in writing: a letter for the proper moves, the offset for any other. -/
def text (m : Move) : Bytes :=
  if m = left then utf8 "L"
  else if m = right then utf8 "R"
  else utf8 "Move(" ++ Bytes.ofInt m.offset.toInt ++ utf8 ")"

end Move

/-- A transition rule: in state `source` with `read` under the head, write `write`, change to
`target` and make the move. -/
structure Instruction where
  source : StateId
  read : Symbol
  target : StateId
  write : Symbol
  move : Move
deriving Repr, DecidableEq

namespace Instruction

/-- Both states of the instruction are below `states`. -/
def StatesBelow (states : Nat) (i : Instruction) : Prop :=
  (0 ≤ i.source ∧ i.source < states) ∧ 0 ≤ i.target ∧ i.target < states

instance (states : Nat) (i : Instruction) : Decidable (i.StatesBelow states) :=
  inferInstanceAs (Decidable (_ ∧ _))

/-- The instruction makes one of the two proper moves. -/
def MovesOne (i : Instruction) : Prop := i.move = Move.left ∨ i.move = Move.right

instance (i : Instruction) : Decidable i.MovesOne := inferInstanceAs (Decidable (_ ∨ _))

/-- The instruction may stand in a program with `states` states. -/
def Valid (states : Nat) (i : Instruction) : Prop := i.StatesBelow states ∧ i.MovesOne

instance (states : Nat) (i : Instruction) : Decidable (i.Valid states) :=
  inferInstanceAs (Decidable (_ ∧ _))

/-- The instruction is the one for the given state and symbol. -/
def Applies (state : StateId) (symbol : Symbol) (i : Instruction) : Prop :=
  i.source = state ∧ i.read = symbol

instance (state : StateId) (symbol : Symbol) (i : Instruction) :
    Decidable (i.Applies state symbol) := inferInstanceAs (Decidable (_ ∧ _))

end Instruction

end LogicMill
