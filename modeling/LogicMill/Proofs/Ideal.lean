import LogicMill.Machine
import Mathlib.Algebra.Group.Defs
import Mathlib.Logic.Function.Basic
import Mathlib.Data.Int.Cast.Defs

/-! # Ideal machines

A machine on a tape whose cells are addressed by an additive group `A`. The tape is a ring of `n`
cells where `A` is `ZMod n`, and has no ends where it is `ℤ`. Nothing is indexed, nothing is counted
in machine words: a step searches the instructions in order.

* `Ideal`, `Ideal.apply`, `Ideal.step?`, `Ideal.after`: configurations, steps, and numbers of steps.
* `Ideal.HaltsAfter`, `Ideal.StuckAfter`, `Ideal.RunsFor`: what can be seen after `k` steps.
* `Ideal.Ends`: how a run with a step limit ends.
* `Ideal.run`: the run itself; `Ideal.run_eq_iff_ends` and `Ideal.after_run` say what it computes.
* `Ideal.run_induction`: induction along a run.
-/

namespace LogicMill
set_option autoImplicit false

/-! ## Ideal machines -/

/-- A machine on a tape whose cells are addressed by `A`: a ring where `A` is `ZMod n`, a tape without
ends where it is `ℤ`. -/
structure Ideal (A : Type) where
  state : StateId
  cells : A → Symbol
  head : A

namespace Ideal

variable {A : Type} [AddGroupWithOne A] [DecidableEq A]

/-- What an instruction makes of a configuration. -/
def apply (c : Ideal A) (i : Instruction) : Ideal A where
  state := i.target
  cells := Function.update c.cells c.head i.write
  head := c.head + (i.move.offset.toInt : A)

/-- One step: the first instruction of the code for the state and the symbol under the head. -/
def step? (code : Array Instruction) (c : Ideal A) : Option (Ideal A) :=
  (firstMatch code c.state (c.cells c.head)).map c.apply

/-- The configuration after a number of steps, if all of them can be made. -/
def after (code : Array Instruction) : ℕ → Ideal A → Option (Ideal A)
  | 0, c => some c
  | k + 1, c => (c.step? code).bind (after code k)

/-- None of the first `k` configurations is in the halting state. -/
def Awake (code : Array Instruction) (c : Ideal A) (k : ℕ) : Prop :=
  ∀ j < k, ∀ d, c.after code j = some d → d.state ≠ StateId.halt

/-- The machine is in the halting state after `k` steps, for the first time. -/
def HaltsAfter (code : Array Instruction) (c : Ideal A) (k : ℕ) : Prop :=
  (∃ d, c.after code k = some d ∧ d.state = StateId.halt) ∧ c.Awake code k

/-- The machine has no instruction after `k` steps and has not halted. -/
def StuckAfter (code : Array Instruction) (c : Ideal A) (k : ℕ) : Prop :=
  (∃ d, c.after code k = some d ∧ d.step? code = none) ∧ c.Awake code (k + 1)

/-- The machine makes `k` steps and has not halted. -/
def RunsFor (code : Array Instruction) (c : Ideal A) (k : ℕ) : Prop :=
  (∃ d, c.after code k = some d) ∧ c.Awake code (k + 1)

/-- How a run of an ideal machine ended. -/
structure Ending (A : Type) where
  status : Status
  steps : ℕ
  config : Ideal A

/-- A run of at most `limit` steps: the halting state ends it, then the limit, then a configuration
without an instruction. -/
def run (code : Array Instruction) : (limit : ℕ) → Ideal A → Ending A
  | 0, c => if c.state = StateId.halt then ⟨.halted, 0, c⟩ else ⟨.timedOut, 0, c⟩
  | limit + 1, c =>
    if c.state = StateId.halt then ⟨.halted, 0, c⟩
    else
      match c.step? code with
      | none => ⟨.deadEnd, 0, c⟩
      | some d =>
        let e := run code limit d
        { e with steps := e.steps + 1 }

/-- What it means that a run of at most `limit` steps ends with the given status after `k` steps. -/
def Ends (code : Array Instruction) (c : Ideal A) (limit : ℕ) : Status → ℕ → Prop
  | .halted, k => k ≤ limit ∧ c.HaltsAfter code k
  | .deadEnd, k => k < limit ∧ c.StuckAfter code k
  | .timedOut, k => k = limit ∧ c.RunsFor code k

/-! ## The first step of a run

There are four cases: the machine has halted, or it may make no step, or it has no instruction, or it
makes a step. Each is an equation for the run and one for the ways in which it can end. -/

section FirstStep

variable {code : Array Instruction} {c d : Ideal A} {k limit : ℕ} {status : Status}

theorem after_succ (h : c.step? code = some d) : c.after code (k + 1) = d.after code k := by
  rw [after, h, Option.bind_some]

theorem after_succ_none (h : c.step? code = none) : c.after code (k + 1) = none := by
  rw [after, h, Option.bind_none]

theorem awake_zero : c.Awake code 0 := fun _ hj => absurd hj (Nat.not_lt_zero _)

theorem awake_one_iff : c.Awake code 1 ↔ c.state ≠ StateId.halt := by
  simp [Awake, after]

theorem awake_succ_iff (h : c.step? code = some d) :
    c.Awake code (k + 1) ↔ c.state ≠ StateId.halt ∧ d.Awake code k := by
  constructor
  · intro hawake
    refine ⟨hawake 0 (Nat.succ_pos k) c rfl, fun j hj e he => ?_⟩
    exact hawake (j + 1) (Nat.succ_lt_succ hj) e (by rwa [after_succ h])
  · rintro ⟨hc, hawake⟩ j hj e he
    cases j with
    | zero =>
      cases he
      exact hc
    | succ j =>
      rw [after_succ h] at he
      exact hawake j (Nat.lt_of_succ_lt_succ hj) e he

theorem Awake.state_ne (h : c.Awake code (k + 1)) : c.state ≠ StateId.halt :=
  h 0 (Nat.succ_pos k) c rfl

theorem run_of_halt (hc : c.state = StateId.halt) : c.run code limit = ⟨.halted, 0, c⟩ := by
  cases limit <;> rw [run, if_pos hc]

theorem run_zero (hc : c.state ≠ StateId.halt) : c.run code 0 = ⟨.timedOut, 0, c⟩ := by
  rw [run, if_neg hc]

theorem run_of_stuck (hc : c.state ≠ StateId.halt) (h : c.step? code = none) :
    c.run code (limit + 1) = ⟨.deadEnd, 0, c⟩ := by
  rw [run, if_neg hc, h]

theorem run_of_step (hc : c.state ≠ StateId.halt) (h : c.step? code = some d) :
    c.run code (limit + 1) =
      ⟨(d.run code limit).status, (d.run code limit).steps + 1, (d.run code limit).config⟩ := by
  rw [run, if_neg hc, h]

/-- Induction along a run, with one case for each way it can end and one for a step. -/
@[elab_as_elim]
theorem run_induction (code : Array Instruction) {motive : ℕ → Ideal A → Prop}
    (halted : ∀ limit c, c.state = StateId.halt → motive limit c)
    (timedOut : ∀ c, c.state ≠ StateId.halt → motive 0 c)
    (stuck : ∀ limit c, c.state ≠ StateId.halt → c.step? code = none → motive (limit + 1) c)
    (step : ∀ limit c d, c.state ≠ StateId.halt → c.step? code = some d → motive limit d →
      motive (limit + 1) c)
    (limit : ℕ) (c : Ideal A) : motive limit c := by
  induction limit generalizing c with
  | zero =>
    by_cases hc : c.state = StateId.halt
    · exact halted 0 c hc
    · exact timedOut c hc
  | succ limit ih =>
    by_cases hc : c.state = StateId.halt
    · exact halted (limit + 1) c hc
    · cases h : c.step? code with
      | none => exact stuck limit c hc h
      | some d => exact step limit c d hc h (ih d)

theorem ends_of_halt (hc : c.state = StateId.halt) :
    c.Ends code limit status k ↔ status = .halted ∧ k = 0 := by
  cases status with
  | halted =>
    simp only [Ends, HaltsAfter, true_and]
    constructor
    · rintro ⟨-, -, hawake⟩
      cases k with
      | zero => rfl
      | succ k => exact absurd hc hawake.state_ne
    · rintro rfl
      exact ⟨Nat.zero_le _, ⟨c, rfl, hc⟩, awake_zero⟩
  | deadEnd =>
    simp only [Ends, StuckAfter]
    exact ⟨fun h => absurd hc h.2.2.state_ne, fun h => nomatch h.1⟩
  | timedOut =>
    simp only [Ends, RunsFor]
    exact ⟨fun h => absurd hc h.2.2.state_ne, fun h => nomatch h.1⟩

theorem ends_zero (hc : c.state ≠ StateId.halt) :
    c.Ends code 0 status k ↔ status = .timedOut ∧ k = 0 := by
  cases status with
  | halted =>
    simp only [Ends, HaltsAfter]
    constructor
    · rintro ⟨hk, ⟨d, hd, hhalt⟩, -⟩
      obtain rfl := Nat.le_zero.1 hk
      cases hd
      exact absurd hhalt hc
    · exact fun h => nomatch h.1
  | deadEnd =>
    simp only [Ends]
    exact ⟨fun h => absurd h.1 (Nat.not_lt_zero _), fun h => nomatch h.1⟩
  | timedOut =>
    simp only [Ends, RunsFor, true_and]
    constructor
    · exact fun h => h.1
    · rintro rfl
      exact ⟨rfl, ⟨c, rfl⟩, awake_one_iff.2 hc⟩

theorem ends_of_stuck (hc : c.state ≠ StateId.halt) (h : c.step? code = none) :
    c.Ends code (limit + 1) status k ↔ status = .deadEnd ∧ k = 0 := by
  -- No configuration is reached by one step or more.
  have hzero : ∀ d, c.after code k = some d → k = 0 := by
    intro d hd
    cases k with
    | zero => rfl
    | succ k =>
      rw [after_succ_none h] at hd
      cases hd
  cases status with
  | halted =>
    simp only [Ends, HaltsAfter]
    constructor
    · rintro ⟨-, ⟨d, hd, hhalt⟩, -⟩
      obtain rfl := hzero d hd
      cases hd
      exact absurd hhalt hc
    · exact fun h => nomatch h.1
  | deadEnd =>
    simp only [Ends, StuckAfter, true_and]
    constructor
    · rintro ⟨-, ⟨d, hd, -⟩, -⟩
      exact hzero d hd
    · rintro rfl
      exact ⟨Nat.succ_pos _, ⟨c, rfl, h⟩, awake_one_iff.2 hc⟩
  | timedOut =>
    simp only [Ends, RunsFor]
    constructor
    · rintro ⟨hk, ⟨d, hd⟩, -⟩
      rw [hzero d hd] at hk
      cases hk
    · exact fun h => nomatch h.1

theorem ends_succ_iff (hc : c.state ≠ StateId.halt) (h : c.step? code = some d) :
    c.Ends code (limit + 1) status k ↔ ∃ j, k = j + 1 ∧ d.Ends code limit status j := by
  cases k with
  | zero =>
    constructor
    · intro hends
      cases status with
      | halted =>
        obtain ⟨-, ⟨e, he, hhalt⟩, -⟩ := hends
        cases he
        exact absurd hhalt hc
      | deadEnd =>
        obtain ⟨-, ⟨e, he, hnone⟩, -⟩ := hends
        cases he
        rw [h] at hnone
        cases hnone
      | timedOut => exact absurd hends.1 (Nat.succ_ne_zero limit).symm
    · rintro ⟨j, hj, -⟩
      cases hj
  | succ k =>
    simp only [Nat.add_right_cancel_iff, exists_eq_left']
    cases status with
    | halted => simp [Ends, HaltsAfter, after_succ h, awake_succ_iff h, hc]
    | deadEnd => simp [Ends, StuckAfter, after_succ h, awake_succ_iff h, hc]
    | timedOut => simp [Ends, RunsFor, after_succ h, awake_succ_iff h, hc]

end FirstStep

/-- The steps that a run made lead to where it ended. -/
theorem after_run (code : Array Instruction) (limit : ℕ) (c : Ideal A) :
    c.after code (c.run code limit).steps = some (c.run code limit).config := by
  induction limit generalizing c with
  | zero =>
    by_cases hc : c.state = StateId.halt
    · rw [run_of_halt hc, after]
    · rw [run_zero hc, after]
  | succ limit ih =>
    by_cases hc : c.state = StateId.halt
    · rw [run_of_halt hc, after]
    · cases h : c.step? code with
      | none => rw [run_of_stuck hc h, after]
      | some d => rw [run_of_step hc h, after_succ h, ih d]

/-- A run ends in the one way in which it can. -/
theorem run_eq_iff_ends (code : Array Instruction) (limit : ℕ) (c : Ideal A) (status : Status)
    (k : ℕ) :
    (c.run code limit).status = status ∧ (c.run code limit).steps = k ↔
      c.Ends code limit status k := by
  -- Each way in which the run may go on is a case of the run and a case of how it can end.
  induction limit generalizing c k with
  | zero =>
    by_cases hc : c.state = StateId.halt
    · rw [run_of_halt hc, ends_of_halt hc, eq_comm, eq_comm (a := k)]
    · rw [run_zero hc, ends_zero hc, eq_comm, eq_comm (a := k)]
  | succ limit ih =>
    by_cases hc : c.state = StateId.halt
    · rw [run_of_halt hc, ends_of_halt hc, eq_comm, eq_comm (a := k)]
    · cases h : c.step? code with
      | none => rw [run_of_stuck hc h, ends_of_stuck hc h, eq_comm, eq_comm (a := k)]
      | some d =>
        rw [run_of_step hc h, ends_succ_iff hc h]
        constructor
        · rintro ⟨hstatus, hsteps⟩
          exact ⟨_, hsteps.symm, (ih d _).1 ⟨hstatus, rfl⟩⟩
        · rintro ⟨j, rfl, hends⟩
          obtain ⟨hstatus, rfl⟩ := (ih d j).2 hends
          exact ⟨hstatus, rfl⟩

end Ideal

end LogicMill
