import LogicMill.Proofs.Run

/-! # Runs that are taken up again

A run that reached its limit can be taken up where it stopped, and nothing shows that it was
interrupted. A run that halted or found no instruction is over: no further run changes it.

* `Ideal.run_add`: a run of an ideal machine in two parts.
* `Ideal.run_again`: what comes of running on after the end.
* `Program.run_add`, `Program.run_again`: the same for a program on its ring.
* `Machine.run_in_parts`: the same for a machine whose step limit is set before each run.
-/

namespace LogicMill
set_option autoImplicit false

/-! ## Ideal machines -/

namespace Ideal

variable {A : Type} [AddGroupWithOne A] [DecidableEq A] {code : Array Instruction} {c : Ideal A}
  {a b : ℕ}

/-- A run of `a` steps and a run of `b` steps after it make one run of `a + b` steps. The second run
must be allowed a step: without one it could not tell a dead end from a reached limit. -/
theorem run_add (a : ℕ) (hb : 0 < b) (c : Ideal A) :
    c.run code (a + b) =
      ⟨((c.run code a).config.run code b).status,
        (c.run code a).steps + ((c.run code a).config.run code b).steps,
        ((c.run code a).config.run code b).config⟩ := by
  induction a generalizing c with
  | zero =>
    by_cases hc : c.state = StateId.halt
    · simp only [run_of_halt hc, Nat.add_zero]
    · simp only [run_zero hc, Nat.zero_add]
  | succ a ih =>
    by_cases hc : c.state = StateId.halt
    · simp only [run_of_halt hc, Nat.add_zero]
    · rw [Nat.succ_add]
      cases h : c.step? code with
      | none =>
        obtain ⟨b, rfl⟩ := Nat.exists_eq_add_of_lt hb
        rw [Nat.zero_add]
        simp only [run_of_stuck hc h, Nat.add_zero]
      | some d =>
        simp only [run_of_step hc h, ih d]
        congr 1
        omega

/-- A run that did not reach its limit is over: the machine has halted, or it has no instruction where
it stands. -/
theorem run_again (hb : 0 < b) (h : (c.run code a).status ≠ .timedOut) :
    (c.run code a).config.run code b = ⟨(c.run code a).status, 0, (c.run code a).config⟩ := by
  have hends := (c.run_eq_iff_ends code a _ _).1 ⟨rfl, rfl⟩
  have hafter := after_run code a c
  generalize c.run code a = e at h hends hafter ⊢
  obtain ⟨status, steps, d⟩ := e
  cases status with
  | halted =>
    obtain ⟨-, ⟨d', hd', hhalt⟩, -⟩ := hends
    obtain rfl : d = d' := Option.some.inj (hafter.symm.trans hd')
    exact run_of_halt hhalt
  | deadEnd =>
    obtain ⟨-, ⟨d', hd', hstuck⟩, hawake⟩ := hends
    obtain rfl : d = d' := Option.some.inj (hafter.symm.trans hd')
    obtain ⟨b, rfl⟩ := Nat.exists_eq_add_of_lt hb
    exact run_of_stuck (hawake steps (Nat.lt_succ_self steps) d hd') hstuck
  | timedOut => exact absurd rfl h

end Ideal

/-! ## Programs -/

theorem Run.Follows.config_eq {n before before' : ℕ} {r r' : Run} {e e' : Ideal.Ending (ZMod n)}
    (h : r.Follows before e) (h' : r'.Follows before' e') (heq : e.config = e'.config) :
    r.config = r'.config := by
  have hview : r.config.view n = r'.config.view n := by rw [h.config, h'.config, heq]
  exact Config.eq_of_view_eq h.size h'.size hview

namespace Program

variable (p : Program) (traced : Bool) (a : ℕ) {b : ℕ} (c : Config)

/-- A run that follows on another one, as a run of the ideal machine from where the first one ended. -/
theorem run_follows_run (b : ℕ) :
    (p.run traced b (p.run traced a c).config).Follows 0
      (((c.view c.tape.size).run p.code a).config.run p.code b) := by
  have hfirst := p.run_follows traced a c
  have hsecond := p.run_follows traced b (p.run traced a c).config
  rwa [hfirst.size, hfirst.config] at hsecond

theorem run_add (hb : 0 < b) :
    let first := p.run traced a c
    let second := p.run traced b first.config
    let whole := p.run traced (a + b) c
    second.status = whole.status ∧ first.steps + second.steps = whole.steps ∧
      second.config = whole.config := by
  intro first second whole
  have hfirst : first.Follows 0 _ := p.run_follows traced a c
  have hsecond : second.Follows 0 _ := p.run_follows_run traced a c b
  have hwhole : whole.Follows 0 _ := p.run_follows traced (a + b) c
  rw [Ideal.run_add a hb] at hwhole
  refine ⟨hsecond.status.trans hwhole.status.symm, ?_, hsecond.config_eq hwhole rfl⟩
  rw [hfirst.steps, hsecond.steps, hwhole.steps, Nat.zero_add, Nat.zero_add, Nat.zero_add]

theorem run_again (hb : 0 < b) :
    let first := p.run traced a c
    let second := p.run traced b first.config
    first.status ≠ .timedOut →
      second.status = first.status ∧ second.steps = 0 ∧ second.config = first.config := by
  intro first second hover
  have hfirst : first.Follows 0 _ := p.run_follows traced a c
  have hsecond : second.Follows 0 _ := p.run_follows_run traced a c b
  rw [Ideal.run_again hb (hfirst.status ▸ hover)] at hsecond
  exact ⟨hsecond.status.trans hfirst.status.symm, hsecond.steps, hsecond.config_eq hfirst rfl⟩

end Program

/-! ## Machines -/

/-- Runs that ended in the same way in the same configuration tell the same, but for the steps. -/
theorem Run.outcome_eq (p : Program) {r r' : Run} (hstatus : r.status = r'.status)
    (hconfig : r.config = r'.config) : r.outcome p = { r'.outcome p with steps := r.steps } := by
  simp only [Run.outcome, hstatus, hconfig]

namespace Machine

theorem set_stepLimit (m : Machine) {n : ℤ} (h : 0 < n) :
    m.set (.stepLimit n) = .ok { m with limit := n.toNat } := by
  rw [set, if_pos h]

/-- A run with limit `a` and a run with limit `b` after it make one run with limit `a + b`: the tape,
the head and the state are the same afterwards, the second run ends in the same way, and the numbers
of steps add up. If the first run halted or found no instruction, then the second one takes no step,
tells the same and changes nothing, and the run with the higher limit is the first one. -/
theorem run_in_parts (m : Machine) (a b : ℤ) (ha : 0 < a) (hb : 0 < b) :
    ∃ first second whole : Machine,
      m.set (.stepLimit a) = .ok first ∧
      first.run.2.2.set (.stepLimit b) = .ok second ∧
      m.set (.stepLimit (a + b)) = .ok whole ∧
      second.run.2.2.config = whole.run.2.2.config ∧
      second.run.1.status = whole.run.1.status ∧
      first.run.1.steps + second.run.1.steps = whole.run.1.steps ∧
      (first.run.1.status ≠ .timedOut →
        second.run.1 = { first.run.1 with steps := 0 } ∧
        second.run.2.2.config = first.run.2.2.config ∧
        whole.run.1 = first.run.1 ∧
        whole.run.2.2.config = first.run.2.2.config) := by
  have hadd : (a + b).toNat = a.toNat + b.toNat := Int.toNat_add ha.le hb.le
  have hb' : 0 < b.toNat := by omega
  refine ⟨_, _, _, m.set_stepLimit ha, set_stepLimit _ hb, m.set_stepLimit (Int.add_pos ha hb), ?_⟩
  rw [hadd]
  obtain ⟨hstatus, hsteps, hconfig⟩ := m.program.run_add m.traced a.toNat m.config hb'
  refine ⟨hconfig, hstatus, hsteps, fun hover => ?_⟩
  obtain ⟨hstatus', hsteps', hconfig'⟩ := m.program.run_again m.traced a.toNat m.config hb' hover
  have hsecond := Run.outcome_eq m.program hstatus' hconfig'
  have hwhole := Run.outcome_eq m.program (hstatus.symm.trans hstatus') (hconfig.symm.trans hconfig')
  rw [hsteps'] at hsecond
  rw [← hsteps, hsteps', Nat.add_zero] at hwhole
  exact ⟨hsecond, hconfig', hwhole, hconfig.symm.trans hconfig'⟩

/-- One instruction, after which the head of `stalling` is on a blank. -/
def stallCode : Array Instruction :=
  #[⟨StateId.init, .ofChar 'a', StateId.init, .ofChar 'b', .right⟩]

/-- A machine that has no instruction after one step. -/
def stalling : Machine where
  program :=
    { states := StateTable.initial
      code := stallCode
      index := .ofCode stallCode
      code_valid := by decide
      size_le := by decide
      index_eq := rfl }
  config := ⟨StateId.init, ⟨#[.ofChar 'a', .blank], 0, by decide, by decide⟩⟩

/-- A dead end at the limit is told by the run after it, or by one with a higher limit. -/
theorem run_in_parts_stalling :
    ∃ first second whole : Machine,
      stalling.set (.stepLimit 1) = .ok first ∧
      first.run.2.2.set (.stepLimit 1) = .ok second ∧
      stalling.set (.stepLimit 2) = .ok whole ∧
      (first.run.1.status, first.run.1.steps) = (.timedOut, 1) ∧
      (second.run.1.status, second.run.1.steps) = (.deadEnd, 0) ∧
      (whole.run.1.status, whole.run.1.steps) = (.deadEnd, 1) := by
  obtain ⟨first, second, whole, hfirst, hsecond, hwhole, -, hstatus, hsteps, -⟩ :=
    run_in_parts stalling 1 1 (by decide) (by decide)
  have hone : (first.run.1.status, first.run.1.steps) = (.timedOut, 1) := by
    cases hfirst
    decide +kernel
  have htwo : (second.run.1.status, second.run.1.steps) = (.deadEnd, 0) := by
    cases hfirst
    cases hsecond
    decide +kernel
  refine ⟨first, second, whole, hfirst, hsecond, hwhole, hone, htwo, ?_⟩
  rw [Prod.mk.injEq] at hone htwo ⊢
  exact ⟨hstatus.symm.trans htwo.1, by rw [← hsteps, hone.2, htwo.2]⟩

end Machine

end LogicMill
