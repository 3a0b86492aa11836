import LogicMill.Cli.Session
import LogicMill.Proofs.Resumption
import LogicMill.Proofs.Usage

/-! # Traces

A machine whose log takes records of debug level reports every step to it. The records tell the whole
run: from the tape as it is shown at the start, what they say was written and moved leads to the tape
as it is shown at the end. Nothing else of a run depends on the log.

* `Program.after`: the configuration after a number of steps.
* `Program.Leaves`: steps from one configuration to another, with the footprints that they leave.
  `Program.runFrom_leaves` and `Program.run_leaves` are about runs.
* `Strip`, `Strip.replay?`: a tape as it is shown, and what the record of a step says to do to it.
  `Config.strip_apply` is about one step, `Program.Leaves.replay` about a run.
* `Program.run_untraced`: a run with and without a trace.
* `Machine.run_tells_steps`: the records of a machine.
-/

namespace LogicMill
set_option autoImplicit false

/-! ## Footprints -/

namespace Program

/-- The configuration after a number of steps, if all of them can be made. -/
def after (p : Program) : ℕ → Config → Option Config
  | 0, c => some c
  | k + 1, c => (p.step? c).bind (p.after k)

/-- Steps from one configuration to another, with the footprints that they leave. The first one has the
given number. -/
inductive Leaves (p : Program) : ℕ → Config → List Footprint → Config → Prop
  | done (number : ℕ) (c : Config) : p.Leaves number c [] c
  | step {number : ℕ} {c d : Config} {i : Instruction} {prints : List Footprint} :
    p.rule? c = some i → p.Leaves (number + 1) (c.apply i) prints d →
      p.Leaves number c (p.footprint number c i :: prints) d

variable {p : Program} {number : ℕ} {c d : Config} {prints : List Footprint}

theorem Leaves.after (h : p.Leaves number c prints d) : p.after prints.length c = some d := by
  induction h with
  | done => rfl
  | step hrule _ ih => rw [List.length_cons, Program.after, step?_of_rule? hrule, Option.bind_some, ih]

theorem Leaves.getElem? (h : p.Leaves number c prints d) {k : ℕ} (hk : k < prints.length) :
    ∃ e i, p.after k c = some e ∧ p.rule? e = some i ∧
      prints[k]? = some (p.footprint (number + k) e i) := by
  induction h generalizing k with
  | done => exact absurd hk (Nat.not_lt_zero k)
  | @step number c d i prints hrule _ ih =>
    cases k with
    | zero => exact ⟨c, i, rfl, hrule, rfl⟩
    | succ k =>
      obtain ⟨e, j, he, hj, hprint⟩ := ih (Nat.lt_of_succ_lt_succ hk)
      refine ⟨e, j, ?_, hj, ?_⟩
      · rw [Program.after, step?_of_rule? hrule, Option.bind_some, he]
      · rw [List.getElem?_cons_succ, hprint, Nat.add_right_comm, Nat.add_assoc]

theorem runFrom_leaves (p : Program) (fuel steps : ℕ) (c : Config) (trace : Array Footprint) :
    ∃ prints, (p.runFrom true fuel steps c trace).trace = trace ++ prints.toArray ∧
      (p.runFrom true fuel steps c trace).steps = steps + prints.length ∧
      p.Leaves steps c prints (p.runFrom true fuel steps c trace).config := by
  -- The trace is built at its end and `Leaves` at its front, so both are told with what is there before.
  induction fuel generalizing steps c trace with
  | zero => exact ⟨[], Array.append_empty.symm, rfl, .done steps c⟩
  | succ fuel ih =>
    rw [runFrom]
    cases hrule : p.rule? c with
    | none => exact ⟨[], Array.append_empty.symm, rfl, .done steps c⟩
    | some i =>
      simp only [if_true]
      split
      · exact ⟨[p.footprint steps c i], by simp, rfl, .step hrule (.done _ _)⟩
      · obtain ⟨prints, htrace, hsteps, hleaves⟩ :=
          ih (steps + 1) (c.apply i) (trace.push (p.footprint steps c i))
        refine ⟨p.footprint steps c i :: prints, ?_, ?_, .step hrule hleaves⟩
        · rw [htrace]
          simp
        · rw [hsteps, List.length_cons]
          omega

theorem run_leaves (p : Program) (limit : ℕ) (c : Config) :
    (p.run true limit c).steps = (p.run true limit c).trace.toList.length ∧
      p.Leaves 0 c (p.run true limit c).trace.toList (p.run true limit c).config := by
  unfold run
  split
  · exact ⟨rfl, .done 0 c⟩
  · obtain ⟨prints, htrace, hsteps, hleaves⟩ := p.runFrom_leaves limit 0 c #[]
    have hprints : (p.runFrom true limit 0 c #[]).trace.toList = prints := by simp [htrace]
    rw [hprints]
    exact ⟨hsteps.trans (Nat.zero_add _), hleaves⟩

/-! ## Runs without a trace -/

theorem trace_runFrom_false (p : Program) (fuel steps : ℕ) (c : Config) (trace : Array Footprint) :
    (p.runFrom false fuel steps c trace).trace = trace := by
  induction fuel generalizing steps c trace with
  | zero => rfl
  | succ fuel ih =>
    rw [runFrom]
    cases p.rule? c with
    | none => rfl
    | some i =>
      simp only [Bool.false_eq_true, if_false]
      split
      · rfl
      · exact ih (steps + 1) (c.apply i) trace

/-- A run ends in the same way whether or not it keeps a trace. -/
theorem run_untraced (p : Program) (limit : ℕ) (c : Config) :
    p.run false limit c = { p.run true limit c with trace := #[] } := by
  have hfalse := p.run_follows false limit c
  have htrue := p.run_follows true limit c
  have htrace : (p.run false limit c).trace = #[] := by
    unfold run
    split
    · rfl
    · exact p.trace_runFrom_false limit 0 c #[]
  have hconfig := hfalse.config_eq htrue rfl
  have hstatus := hfalse.status.trans htrue.status.symm
  have hsteps := hfalse.steps.trans htrue.steps.symm
  simp only [← hstatus, ← hsteps, ← hconfig, ← htrace]

end Program

/-! ## Replaying records -/

/-- The text that a record has under a name. -/
def Log.Record.text? (r : Log.Record) (name : Bytes) : Option Bytes :=
  match r.fields.lookup name with
  | some (.text content) => some content
  | _ => none

/-- A tape as it is shown: the writing in each cell, and the cell of the head. -/
structure Strip where
  cells : List Bytes
  head : ℕ
deriving Repr, DecidableEq

/-- What the record of a step says to do: to write a text under the head, and to move the head by one
cell round the ring, to the left or to the right. -/
def Strip.replay? (s : Strip) (r : Log.Record) : Option Strip :=
  match r.text? (utf8 "write"), r.text? (utf8 "move") with
  | some write, some move =>
    let cells := s.cells.set s.head write
    if move = utf8 "L" then some ⟨cells, (s.head + (cells.length - 1)) % cells.length⟩
    else if move = utf8 "R" then some ⟨cells, (s.head + 1) % cells.length⟩
    else none
  | _, _ => none

def Tape.strip (t : Tape) : Strip := ⟨t.cells.toList.map Symbol.text, t.head⟩

namespace Tape

@[simp] theorem length_cells_strip (t : Tape) : t.strip.cells.length = t.size := by
  simp [strip, size]

theorem cells_strip_writeHead (t : Tape) (s : Symbol) :
    (t.writeHead s).strip.cells = t.strip.cells.set t.head s.text := by
  simp [strip, writeHead, List.map_set]

theorem strip_shift (t : Tape) (offset : Int8) :
    (t.shift offset).strip = ⟨t.strip.cells, (t.shift offset).head⟩ := rfl

theorem head_shift_right (t : Tape) : (t.shift Move.right.offset).head = (t.head + 1) % t.size := by
  have h := t.head_shift_emod Move.right.offset
  rw [show Move.right.offset.toInt = 1 from rfl] at h
  rw [← Int.natCast_inj, h, Int.natCast_emod]
  rfl

theorem head_shift_left (t : Tape) :
    (t.shift Move.left.offset).head = (t.head + (t.size - 1)) % t.size := by
  have h := t.head_shift_emod Move.left.offset
  have hpos : 0 < t.size := t.size_pos
  have hwrap : ((t.head + (t.size - 1) : ℕ) : ℤ) = t.head + -1 + t.size := by omega
  rw [show Move.left.offset.toInt = -1 from rfl] at h
  rw [← Int.natCast_inj, h, Int.natCast_emod, hwrap, Int.add_emod_right]

end Tape

theorem Cli.write_stepRecord (f : Footprint) : (stepRecord f).text? (utf8 "write") = some f.write.text := rfl

theorem Cli.move_stepRecord (f : Footprint) : (stepRecord f).text? (utf8 "move") = some f.move.text := rfl

/-- The record of a step says what the instruction does to the tape. -/
theorem Config.strip_apply (p : Program) (number : ℕ) (c : Config) {i : Instruction} (hi : i.MovesOne) :
    c.tape.strip.replay? (Cli.stepRecord (p.footprint number c i)) = some (c.apply i).tape.strip := by
  have hcells : c.tape.strip.cells.set c.tape.strip.head i.write.text =
      (c.tape.writeHead i.write).strip.cells := (c.tape.cells_strip_writeHead i.write).symm
  unfold Strip.replay?
  simp only [Cli.write_stepRecord, Cli.move_stepRecord, Program.footprint, hcells, Tape.length_cells_strip]
  rw [Config.apply, Tape.strip_shift]
  rcases hi with hleft | hright
  · rw [hleft, Tape.head_shift_left, if_pos (by decide)]
    rfl
  · rw [hright, Tape.head_shift_right, if_neg (by decide), if_pos (by decide)]
    rfl

theorem Program.Leaves.replay {p : Program} {number : ℕ} {c d : Config} {prints : List Footprint}
    (h : p.Leaves number c prints d) :
    (prints.map Cli.stepRecord).foldlM Strip.replay? c.tape.strip = some d.tape.strip := by
  induction h with
  | done => rfl
  | @step number c d i prints hrule _ ih =>
    obtain ⟨k, -, hi⟩ := p.getElem?_of_rule? hrule
    have hvalid := p.code_valid i (Array.mem_of_getElem? hi)
    rw [List.map_cons, List.foldlM_cons, c.strip_apply p number hvalid.2]
    exact ih

/-! ## Machines -/

namespace Machine

theorem run_of_traced (m : Machine) {traced : Bool} (h : m.traced = traced) :
    m.run =
      ((m.program.run traced m.limit m.config).outcome m.program,
        (m.program.run traced m.limit m.config).trace,
        { m with
          config := (m.program.run traced m.limit m.config).config
          steps := (m.program.run traced m.limit m.config).steps }) := by
  rw [run, h]

/-- A machine whose log takes records of debug level sends it one record for each step: its number, the
head, the state and the symbol of the configuration in which the step is made, and the next state, the
symbol written and the move of the instruction for it. What the records say was written and moved leads
from the tape as it is shown at the start to the tape as it is shown at the end. Without a log, or with
one that does not take such records, there are none, and the run ends in the same way. -/
theorem run_tells_steps {m : Machine} {level : Log.Level} (hlog : m.log = some level)
    (hlevel : level.value ≤ Log.Level.debug.value) :
    let p := m.program
    let outcome := m.run.1
    let records := m.run.2.1.toList.map Cli.stepRecord
    let left := m.run.2.2
    records.length = outcome.steps ∧
    (∀ k < outcome.steps, ∃ c i, p.after k m.config = some c ∧ p.rule? c = some i ∧
      records[k]? = some {
        level := .debug
        title := utf8 "step"
        fields := [
          (utf8 "n", .number k),
          (utf8 "head", .number c.tape.head),
          (utf8 "state", .text (p.states.name c.state)),
          (utf8 "symbol", .text c.tape.current.text),
          (utf8 "next", .text (p.states.name i.target)),
          (utf8 "write", .text i.write.text),
          (utf8 "move", .text i.move.text)] }) ∧
    p.after outcome.steps m.config = some left.config ∧
    records.foldlM Strip.replay? m.config.tape.strip = some left.config.tape.strip ∧
    ∀ log : Option Log.Level, (∀ quiet ∈ log, Log.Level.debug.value < quiet.value) →
      { m with log }.run = (outcome, #[], { left with log }) := by
  intro p outcome records left
  have htraced : m.traced = true := by
    rw [traced, hlog]
    exact decide_eq_true hlevel
  have hrun := m.run_of_traced htraced
  obtain ⟨hsteps, hleaves⟩ := p.run_leaves m.limit m.config
  have houtcome : outcome.steps = (p.run true m.limit m.config).trace.toList.length := by
    rw [← hsteps]
    exact congrArg (·.1.steps) hrun
  have hrecords : records = (p.run true m.limit m.config).trace.toList.map Cli.stepRecord :=
    congrArg (·.2.1.toList.map Cli.stepRecord) hrun
  have hconfig : left.config = (p.run true m.limit m.config).config := congrArg (·.2.2.config) hrun
  rw [houtcome, hrecords, hconfig]
  refine ⟨List.length_map _, fun k hk => ?_, hleaves.after, hleaves.replay, fun log hlog => ?_⟩
  · obtain ⟨c, i, hc, hi, hprint⟩ := hleaves.getElem? hk
    refine ⟨c, i, hc, hi, ?_⟩
    rw [List.getElem?_map, hprint, Nat.zero_add]
    rfl
  · have hquiet : { m with log }.traced = false := by
      cases log with
      | none => rfl
      | some quiet => exact decide_eq_false (Int.not_le.2 (hlog quiet rfl))
    rw [run_of_traced _ hquiet, Program.run_untraced]
    simp only [outcome, left, hrun]
    rfl

/-- Instructions to go to the right over letters `a`, and back to the left until a blank is found. -/
def paceCode : Array Instruction :=
  #[⟨StateId.init, .ofChar 'a', StateId.init, .ofChar 'b', .right⟩,
    ⟨StateId.init, .blank, 2, .ofChar 'c', .left⟩,
    ⟨2, .ofChar 'b', 2, .ofChar 'd', .left⟩,
    ⟨2, .blank, StateId.halt, .ofChar 'e', .right⟩]

def pace : Program where
  states := StateTable.interned [utf8 "back"]
  code := paceCode
  index := .ofCode paceCode
  code_valid := by decide +kernel
  size_le := by decide
  index_eq := rfl

/-- A machine that reports its steps: two to the right, then back past cell 0 to the other end of the ring. -/
def reporting : Machine where
  program := pace
  config := ⟨StateId.init, ⟨#[.ofChar 'a', .ofChar 'a', .blank, .blank], 0, by decide, by decide⟩⟩
  log := some .debug

/-- The records come in the order of the steps, the last of which is made past cell 0. -/
theorem run_tells_steps_reporting :
    let records := reporting.run.2.1.toList.map Cli.stepRecord
    reporting.run.1.steps = 6 ∧ records.length = 6 ∧
      (∀ k < 6, ∃ c r, pace.after k reporting.config = some c ∧ records[k]? = some r ∧
        r.fields.lookup (utf8 "n") = some (.number k) ∧
        r.fields.lookup (utf8 "head") = some (.number c.tape.head)) ∧
      reporting.run.2.1.toList.map Footprint.head = [0, 1, 2, 1, 0, 3] ∧
      records.foldlM Strip.replay? ⟨[utf8 "a", utf8 "a", utf8 "_", utf8 "_"], 0⟩ =
        some ⟨[utf8 "d", utf8 "d", utf8 "c", utf8 "e"], 0⟩ ∧
      ∃ silent, reporting.set .noLog = .ok silent ∧ silent.run.2.1 = #[] := by
  intro records
  have hlog : reporting.log = some Log.Level.debug := rfl
  obtain ⟨hlength, hrecords, -, hreplay, hquiet⟩ := run_tells_steps hlog (Int.le_refl _)
  have hsteps : reporting.run.1.steps = 6 := by decide +kernel
  rw [hsteps] at hlength hrecords
  have hstart : reporting.config.tape.strip = ⟨[utf8 "a", utf8 "a", utf8 "_", utf8 "_"], 0⟩ := by
    decide +kernel
  have hend : reporting.run.2.2.config.tape.strip = ⟨[utf8 "d", utf8 "d", utf8 "c", utf8 "e"], 0⟩ := by
    decide +kernel
  rw [hstart, hend] at hreplay
  refine ⟨hsteps, hlength, fun k hk => ?_, by decide +kernel, hreplay, _, rfl, ?_⟩
  · obtain ⟨c, i, hc, -, hrecord⟩ := hrecords k hk
    exact ⟨c, _, hc, hrecord, rfl, rfl⟩
  · exact congrArg (·.2.1) (hquiet none fun _ h => nomatch h)

end Machine

end LogicMill
