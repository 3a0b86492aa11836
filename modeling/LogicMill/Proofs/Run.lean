import LogicMill.Proofs.RingView

/-! # Runs

A run of a machine on its ring is a run of the ideal machine on the residues modulo the size of the
tape: it ends in the same way, after the same number of steps, in the same configuration.

* `Run.Follows`: a finished run against the run of an ideal machine.
* `Program.runFrom_follows`, `Program.run_follows`: every run follows the ideal one.
* `Machine.run_ends_iff`: how a machine ends, and where, in terms of single steps.
-/

namespace LogicMill
set_option autoImplicit false

/-- A finished run on a tape of `n` cells, begun after `before` steps, ended as an ideal machine
did. -/
structure Run.Follows {n : ℕ} (r : Run) (before : ℕ) (e : Ideal.Ending (ZMod n)) : Prop where
  status : r.status = e.status
  steps : r.steps = before + e.steps
  size : r.config.tape.size = n
  config : r.config.view n = e.config

namespace Program

/-- A run that has not halted goes on like the ideal machine from where it stands. -/
theorem runFrom_follows (p : Program) (traced : Bool) {n : ℕ} (fuel steps : ℕ) (c : Config)
    (trace : Array Footprint) (hsize : c.tape.size = n) (hc : c.state ≠ StateId.halt) :
    (p.runFrom traced fuel steps c trace).Follows steps ((c.view n).run p.code fuel) := by
  -- The program looks for the halting state after a step, the ideal machine before the next one.
  induction fuel generalizing steps c trace with
  | zero =>
    rw [runFrom, Ideal.run_zero (by exact hc)]
    exact ⟨rfl, rfl, hsize, rfl⟩
  | succ fuel ih =>
    have hrule := p.rule?_eq_firstMatch hsize
    rw [runFrom]
    cases h : p.rule? c with
    | none =>
      have hstep : (c.view n).step? p.code = none := by rw [Ideal.step?, ← hrule, h, Option.map_none]
      rw [Ideal.run_of_stuck (by exact hc) hstep]
      exact ⟨rfl, rfl, hsize, rfl⟩
    | some i =>
      have hstep : (c.view n).step? p.code = some ((c.apply i).view n) := by
        rw [Ideal.step?, ← hrule, h, Option.map_some, Config.view_apply hsize]
      have hnext : (c.apply i).tape.size = n := (c.size_apply i).trans hsize
      rw [Ideal.run_of_step (by exact hc) hstep]
      dsimp only
      split
      · next hhalt =>
        rw [Ideal.run_of_halt (by exact hhalt)]
        exact ⟨rfl, rfl, hnext, rfl⟩
      · next hhalt =>
        have hrest := ih (steps + 1) (c.apply i)
          (if traced then trace.push (p.footprint steps c i) else trace) hnext hhalt
        refine ⟨hrest.status, ?_, hrest.size, hrest.config⟩
        rw [hrest.steps, Nat.add_assoc, Nat.add_comm 1]

/-- Every run is the run of the ideal machine on the residues modulo the size of the tape. -/
theorem run_follows (p : Program) (traced : Bool) (limit : ℕ) (c : Config) :
    (p.run traced limit c).Follows 0 ((c.view c.tape.size).run p.code limit) := by
  rw [run]
  split
  · next hc =>
    rw [Ideal.run_of_halt (by exact hc)]
    exact ⟨rfl, rfl, rfl, rfl⟩
  · next hc => exact p.runFrom_follows traced limit 0 c #[] rfl hc

end Program

/-! ## Machines -/

namespace Machine

/-- What a run tells and leaves behind: it ends in the one way that single steps on the ring allow,
and the outcome and the machine afterwards are those of the configuration that the steps lead to. -/
theorem run_ends_iff (m : Machine) :
    let n := m.config.tape.size
    let code := m.program.code
    let start := m.config.view n
    let outcome := m.run.1
    let left := m.run.2.2
    (∀ status k, outcome.status = status ∧ outcome.steps = k ↔
      start.Ends code m.limit status k) ∧
    ∃ final, start.after code outcome.steps = some final ∧
      left.config.tape.size = n ∧ left.config.view n = final ∧
      outcome.state = final.state ∧
      outcome.stateName = m.program.states.name final.state ∧
      outcome.symbol = final.cells final.head ∧
      left.steps = outcome.steps ∧ left.program = m.program ∧ left.limit = m.limit := by
  intro n code start outcome left
  have hrun := m.program.run_follows m.traced m.limit m.config
  have hsteps : outcome.steps = (start.run code m.limit).steps := hrun.steps.trans (Nat.zero_add _)
  refine ⟨fun status k => ?_, (start.run code m.limit).config, ?_⟩
  · rw [show outcome.status = _ from hrun.status, hsteps]
    exact start.run_eq_iff_ends code m.limit status k
  · have hstate : outcome.state = (start.run code m.limit).config.state := by
      rw [← hrun.config]
      rfl
    refine ⟨?_, hrun.size, hrun.config, hstate, ?_, ?_, rfl, rfl, rfl⟩
    · rw [hsteps, start.after_run code m.limit]
    · rw [← hstate]
      rfl
    · rw [← hrun.config, Config.view_current hrun.size]
      rfl

end Machine

end LogicMill
