import LogicMill.Program
import LogicMill.Rules.Parser
import LogicMill.Trouble

/-! # Programs from rule text

* `assemble`: the program of a rule text, or the first fault in it.
* `AssembleError`: a fault in the text, or a text that could not be read to its end.
-/

namespace LogicMill.Rules
set_option autoImplicit false

/-- Why a rule text makes no program. -/
inductive AssembleError where
  | faults (report : Report Fault)
  | readFailed (cause : Bytes)
  | refused (e : BuildError)
deriving Repr, DecidableEq

namespace AssembleError

/-- The account of the error. The faults of a text are one cause. -/
def trouble : AssembleError → Trouble
  | .faults report => ⟨report.message, []⟩
  | .readFailed cause => ⟨cause, [utf8 "read failed"]⟩
  | .refused e => ⟨e.message, []⟩

def capacity? : AssembleError → Option Capacity
  | .faults report => report.capacity?
  | .readFailed _ => none
  | .refused e => e.capacity?

end AssembleError

/-- Reads rules until the text ends; `fuel` bounds their number, and there are never more rules than
letters. -/
def gather : (fuel : Nat) → Parser → Array Instruction →
    Except AssembleError (Array Instruction × StateTable)
  | 0, p, code => .ok (code, p.table)
  | fuel + 1, p, code =>
    match p.next with
    | (.done, p) => .ok (code, p.table)
    | (.readFailed cause, _) => .error (.readFailed cause)
    | (.fault e, _) => .error (.faults [e])
    | (.rule rule, p) =>
      if maxInstructions ≤ code.size then .error (.faults [⟨p.last, .tooManyRules⟩])
      else gather fuel p (code.push rule)

/-- The program of a rule text called `file`. The text may be the part of a longer one that could be
read before a failure. -/
def assemble (file : Bytes) (text : Bytes) (failure : Option Bytes) :
    Except AssembleError Program :=
  let p := Parser.start file text failure .initial
  match gather (p.rest.length + 1) p #[] with
  | .error e => .error e
  | .ok (code, table) =>
    match Program.build table code with
    | .ok program => .ok program
    | .error e => .error (.refused e)

end LogicMill.Rules
