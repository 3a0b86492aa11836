import LogicMill.Log.Level
import LogicMill.Program
import LogicMill.Tape

/-! # Running a program

* `Config`: a state and a tape. `Program.rule?` is the instruction for it, `Config.apply` what the
  instruction makes of it, `Program.step?` the two together.
* `Status`, `Outcome`: how a run ended, and in which state under which symbol.
* `Footprint`: what the trace tells about one step.
* `Program.runFrom`: at most a given number of steps; `Program.run` looks at the start first.
* `Machine`: a program on a tape, with its step limit and the level of its trace.
* `Machine.create`, `Machine.set`, `Machine.setAll`, `Machine.run`.
-/

namespace LogicMill
set_option autoImplicit false

/-! ## Configurations -/

/-- Where a machine stands: its state and its tape. -/
structure Config where
  state : StateId
  tape : Tape

/-- The configuration after an instruction. -/
def Config.apply (c : Config) (i : Instruction) : Config :=
  ⟨i.target, (c.tape.writeHead i.write).shift i.move.offset⟩

/-- The instruction for a configuration. -/
def Program.rule? (p : Program) (c : Config) : Option Instruction :=
  p.lookup c.state c.tape.current

/-- The next configuration, if there is an instruction for this one. -/
def Program.step? (p : Program) (c : Config) : Option Config := (p.rule? c).map c.apply

/-! ## Outcomes -/

/-- The ways in which a run ends. -/
inductive Status where
  | halted
  | deadEnd
  | timedOut
deriving Repr, DecidableEq

def Status.text : Status → Bytes
  | .halted => utf8 "halted"
  | .deadEnd => utf8 "dead end"
  | .timedOut => utf8 "timed out"

/-- The status with a given number. -/
def Status.ofNumber? : Int → Option Status
  | 0 => some .halted
  | 1 => some .deadEnd
  | 2 => some .timedOut
  | _ => none

/-- The text for a status number, also for one that belongs to no status. -/
def Status.textOfNumber (n : Int) : Bytes :=
  match Status.ofNumber? n with
  | some s => s.text
  | none => utf8 "unknown"

/-- How a run ended: the number of steps that it took, the state that it ended in with the name of
that state, and the symbol under the head. -/
structure Outcome where
  status : Status
  steps : Nat
  state : StateId
  stateName : Bytes
  symbol : Symbol
deriving Repr, DecidableEq

/-- What keeps a run from being a success. -/
inductive RunError where
  | deadEnd (steps : Nat) (state : StateId) (name : Bytes) (symbol : Symbol)
  | timeout
deriving Repr, DecidableEq

/-- What is said of a state that has no instruction for a symbol. -/
def unhandled (state : Bytes) (symbol : Symbol) : Bytes :=
  utf8 "unhandled state " ++ state ++ utf8 " '" ++ symbol.text ++ utf8 "'"

def RunError.message : RunError → Bytes
  | .deadEnd _ _ name symbol => unhandled name symbol
  | .timeout => utf8 "timed out"

/-- The error that an outcome stands for. A machine that halted made none. -/
def Outcome.error? (o : Outcome) : Option RunError :=
  match o.status with
  | .halted => none
  | .deadEnd => some (.deadEnd o.steps o.state o.stateName o.symbol)
  | .timedOut => some .timeout

/-! ## Runs -/

/-- What the trace tells about one step: its number, the head, the names of the states before and
after it, the symbols read and written, and the move. -/
structure Footprint where
  number : Nat
  head : Nat
  state : Bytes
  symbol : Symbol
  next : Bytes
  write : Symbol
  move : Move
deriving Repr, DecidableEq

/-- The footprint of an instruction applied to a configuration. -/
def Program.footprint (p : Program) (number : Nat) (c : Config) (i : Instruction) : Footprint where
  number
  head := c.tape.head
  state := p.states.name c.state
  symbol := c.tape.current
  next := p.states.name i.target
  write := i.write
  move := i.move

/-- A finished run: how it ended, after how many steps, where the machine then stands, and the
trace, if one was asked for. -/
structure Run where
  status : Status
  steps : Nat
  config : Config
  trace : Array Footprint

/-- Runs for at most `fuel` more steps, `steps` having been taken. -/
def Program.runFrom (p : Program) (traced : Bool) :
    (fuel steps : Nat) → Config → Array Footprint → Run
  | 0, steps, c, trace => ⟨.timedOut, steps, c, trace⟩
  | fuel + 1, steps, c, trace =>
    match p.rule? c with
    | none => ⟨.deadEnd, steps, c, trace⟩
    | some i =>
      let trace := if traced then trace.push (p.footprint steps c i) else trace
      let next := c.apply i
      if next.state = StateId.halt then ⟨.halted, steps + 1, next, trace⟩
      else p.runFrom traced fuel (steps + 1) next trace

/-- Runs until the machine halts, finds no instruction or has taken `limit` steps. A machine that
starts in the halting state takes no step. -/
def Program.run (p : Program) (traced : Bool) (limit : Nat) (c : Config) : Run :=
  if c.state = StateId.halt then ⟨.halted, 0, c, #[]⟩
  else p.runFrom traced limit 0 c #[]

/-- The outcome of a finished run. -/
def Run.outcome (p : Program) (r : Run) : Outcome where
  status := r.status
  steps := r.steps
  state := r.config.state
  stateName := p.states.name r.config.state
  symbol := r.config.tape.current

/-! ## Machines -/

/-- A program on a tape. `steps` is the number of steps of the last run; a machine with a log
reports each step to it at debug level. -/
structure Machine where
  program : Program
  config : Config
  steps : Nat := 0
  limit : Nat := defaultStepLimit
  log : Option Log.Level := none

/-- Something to be set before a run: the step limit, the state, a log, or that there is no log. -/
inductive Setting where
  | stepLimit (steps : Int)
  | start (state : StateId)
  | log (level : Log.Level)
  | noLog
deriving Repr, DecidableEq

/-- Why a machine cannot be made or set. -/
inductive MachineError where
  | missingPart
  | badLimit (steps : Int)
  | badState (state : StateId)
deriving Repr, DecidableEq

def MachineError.message : MachineError → Bytes
  | .missingPart => utf8 "nil program or tape"
  | .badLimit n => utf8 "invalid step limit " ++ Bytes.ofInt n
  | .badState id => utf8 "invalid state id " ++ Bytes.ofInt id

namespace Machine

/-- The machine with one setting changed. -/
def set (m : Machine) : Setting → Except MachineError Machine
  | .stepLimit n => if 0 < n then .ok { m with limit := n.toNat } else .error (.badLimit n)
  | .start id =>
    if 0 ≤ id ∧ id < m.program.states.size then
      .ok { m with config := { m.config with state := id } }
    else .error (.badState id)
  | .log level => .ok { m with log := some level }
  | .noLog => .ok { m with log := none }

/-- The machine with settings changed in order, up to the first that is refused. -/
def setAll (m : Machine) : List Setting → Machine × Option MachineError
  | [] => (m, none)
  | s :: rest =>
    match m.set s with
    | .ok m => m.setAll rest
    | .error e => (m, some e)

/-- A machine in the initial state of its program, with settings made. Both parts are needed. -/
def create (program? : Option Program) (tape? : Option Tape) (settings : List Setting) :
    Except MachineError Machine :=
  match program?, tape? with
  | some program, some tape =>
    match setAll { program, config := ⟨StateId.init, tape⟩ } settings with
    | (m, none) => .ok m
    | (_, some e) => .error e
  | _, _ => .error .missingPart

/-- Whether the machine keeps a trace: its log takes records of debug level. -/
def traced (m : Machine) : Bool := m.log.any (Log.Level.passes .debug)

/-- The name of the current state. -/
def stateName (m : Machine) : Bytes := m.program.states.name m.config.state

/-- Runs the machine, which then stands where the run ended. -/
def run (m : Machine) : Outcome × Array Footprint × Machine :=
  let program := m.program
  let limit := m.limit
  let log := m.log
  let r := program.run m.traced limit m.config
  (r.outcome program, r.trace, { program, config := r.config, steps := r.steps, limit, log })

end Machine

end LogicMill
