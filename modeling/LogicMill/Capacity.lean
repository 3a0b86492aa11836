import LogicMill.Text.Bytes

/-! # Fixed limits

The machine is of fixed size. Each limit has a name, under which it is reported when it is reached.

* `maxStates`, `maxNameLength`, `maxInstructions`, `maxTapeSize`, `defaultStepLimit`: the limits.
* `Capacity`: a limit as it is reported, with its `message`.
-/

namespace LogicMill
set_option autoImplicit false

/-- The number of distinct state names, the two built in included. -/
def maxStates : Nat := 1024

/-- The number of characters in a state name. -/
def maxNameLength : Nat := 32

/-- The number of instructions in a program. -/
def maxInstructions : Nat := 65536

/-- The number of cells of a tape. -/
def maxTapeSize : Nat := 1048576

/-- The number of steps that a run takes unless another limit is set. -/
def defaultStepLimit : Nat := 1000000

/-- The characters that all names may take up together, each with one more to end it. -/
def nameStorage : Nat := maxStates * (maxNameLength + 1)

/-- A limit that was reached: what is limited, and the limit. -/
structure Capacity where
  what : Bytes
  limit : Int
deriving Repr, DecidableEq

namespace Capacity

/-- The text under which a reached limit is reported. -/
def message (c : Capacity) : Bytes :=
  c.what ++ utf8 " limit reached (" ++ Bytes.ofInt c.limit ++ utf8 ")"

def nameLength : Capacity := ⟨utf8 "state name length", maxNameLength⟩

def stateTable : Capacity := ⟨utf8 "symbol table", maxStates⟩

def storage : Capacity := ⟨utf8 "symbol storage", nameStorage⟩

def instructions : Capacity := ⟨utf8 "instructions", maxInstructions⟩

def tapeSize : Capacity := ⟨utf8 "tape size", maxTapeSize⟩

end Capacity

end LogicMill
