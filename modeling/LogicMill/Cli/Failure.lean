import LogicMill.Machine
import LogicMill.Trouble

/-! # Failures of an invocation

* `Failure`: an error in the arguments, any other trouble, or a run that did not halt.
* `Failure.status`: the exit status. A dead end has a status of its own.
* `Failure.text`: what is shown of a failure.
* `Failure.ofOutcome?`: the failure that a run has ended in.
-/

namespace LogicMill.Cli
set_option autoImplicit false

/-- Why an invocation does not succeed. -/
inductive Failure where
  | usage (message : Bytes)
  | trouble (t : Trouble)
  | deadEnd (name : Bytes) (symbol : Symbol)
  | timedOut (steps : Nat)
deriving Repr, DecidableEq

namespace Failure

/-- The exit status of a failed invocation. -/
def status : Failure → Nat
  | .deadEnd _ _ => 2
  | _ => 1

/-- What is shown of a failure. Trouble is told at length on request. -/
def text (atLength : Bool) : Failure → Bytes
  | .usage message => message
  | .trouble t => if atLength then t.trail else t.message
  | .deadEnd name symbol => unhandled name symbol
  | .timedOut steps => utf8 "timed out after " ++ Bytes.ofNat steps ++ utf8 " instructions"

/-- The failure that a run has ended in. There is none if the machine halted. -/
def ofOutcome? (o : Outcome) : Option Failure :=
  match o.status with
  | .halted => none
  | .deadEnd => some (.deadEnd o.stateName o.symbol)
  | .timedOut => some (.timedOut o.steps)

end Failure

end LogicMill.Cli
