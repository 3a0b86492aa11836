import LogicMill.Proofs.Trace
import LogicMill.Proofs.Unbounded
import Mathlib.Algebra.Order.Group.Unbundled.Int

/-! # What a run can reach

The head moves by one cell in a step. So in `s` steps a machine writes only to cells less than `s` away from
where its head was at the start, and what it does depends only on the cells at most `s` away. On a small ring
these may be all cells, some of them met from both sides.

* `Ideal.Within c s a`: the cell `a` is at most `s` away from the head.
* `Ideal.cells_run`: the cells that a run leaves alone.
* `Ideal.Agrees`: two machines that differ only far from the head. A step brings the difference nearer by one
  cell (`Ideal.Agrees.apply`), so a run does not meet it (`Ideal.Agrees.run`).
* `Program.applied`: the instructions of the first steps, which tell where the head goes (`Program.head_after`).
* `Machine.run_local`: all of this for a machine on its ring.
-/

namespace LogicMill
set_option autoImplicit false

theorem Instruction.MovesOne.abs_offset {i : Instruction} (h : i.MovesOne) : |i.move.offset.toInt| = 1 := by
  rcases h with h | h <;> rw [h] <;> rfl

theorem Instruction.MovesOne.offset_eq {i : Instruction} (h : i.MovesOne) :
    i.move.offset.toInt = (if i.move = .right then 1 else 0) - (if i.move = .left then 1 else 0) := by
  rcases h with h | h <;> rw [h] <;> rfl

theorem Instruction.MovesOne.count {i : Instruction} (h : i.MovesOne) :
    (if i.move = .right then 1 else 0) + (if i.move = .left then 1 else 0) = 1 := by
  rcases h with h | h <;> rw [h] <;> rfl

namespace Ideal

variable {A : Type} [AddGroupWithOne A] {code : Array Instruction} {c c' d : Ideal A} {i : Instruction}
  {s : ℤ} {a : A} {limit : ℕ}

/-- The cell `a` is at most `s` cells away from the head. -/
def Within (c : Ideal A) (s : ℤ) (a : A) : Prop := ∃ z : ℤ, |z| ≤ s ∧ c.head + (z : A) = a

theorem within_head (hs : 0 ≤ s) : c.Within s c.head := ⟨0, by simpa using hs, by simp⟩

/-- The two machines are in the same state, have their heads on the same cell and hold the same symbols at most
`s` cells away from it. -/
structure Agrees (s : ℤ) (c c' : Ideal A) : Prop where
  state : c'.state = c.state
  head : c'.head = c.head
  cells : ∀ a, c.Within s a → c'.cells a = c.cells a

theorem Agrees.current (h : Agrees s c c') (hs : 0 ≤ s) : c'.cells c'.head = c.cells c.head := by
  rw [h.head, h.cells _ (within_head hs)]

/-! ## What a run writes -/

variable [DecidableEq A]

theorem Within.of_apply (hi : i.MovesOne) (h : (c.apply i).Within s a) : c.Within (s + 1) a := by
  obtain ⟨z, hz, rfl⟩ := h
  refine ⟨i.move.offset.toInt + z, ?_, ?_⟩
  · calc |i.move.offset.toInt + z| ≤ |i.move.offset.toInt| + |z| := abs_add_le _ _
      _ ≤ s + 1 := by rw [hi.abs_offset]; omega
  · rw [Int.cast_add, ← add_assoc]
    rfl

theorem exists_of_step? (h : c.step? code = some d) :
    ∃ i ∈ code, firstMatch code c.state (c.cells c.head) = some i ∧ d = c.apply i := by
  obtain ⟨i, hi, rfl⟩ := Option.map_eq_some_iff.1 h
  exact ⟨i, Array.mem_of_find?_eq_some hi, hi, rfl⟩

theorem cells_run (hcode : ∀ i ∈ code, i.MovesOne) (limit : ℕ) (c : Ideal A)
    (ha : ¬ c.Within ((c.run code limit).steps - 1) a) : (c.run code limit).config.cells a = c.cells a := by
  induction limit, c using @run_induction A _ _ code with
  | halted limit c hc => rw [run_of_halt hc]
  | timedOut c hc => rw [run_zero hc]
  | stuck limit c hc h => rw [run_of_stuck hc h]
  | step limit c d hc h ih =>
    obtain ⟨i, hi, -, rfl⟩ := exists_of_step? h
    rw [run_of_step hc h] at ha ⊢
    push_cast at ha
    rw [add_sub_cancel_right] at ha
    -- The step writes under the head, the steps after it less far away from the next head.
    have hhead : a ≠ c.head := by
      rintro rfl
      exact ha (within_head (Int.natCast_nonneg _))
    have hrest := ih fun hnear => ha (by simpa using hnear.of_apply (hcode i hi))
    rw [hrest]
    exact Function.update_of_ne hhead _ _

/-! ## What a run depends on -/

namespace Agrees

theorem step? (h : Agrees s c c') (code : Array Instruction) (hs : 0 ≤ s) :
    c'.step? code = (firstMatch code c.state (c.cells c.head)).map c'.apply := by
  rw [Ideal.step?, h.state, h.current hs]

theorem apply (h : Agrees (s + 1) c c') (hi : i.MovesOne) : Agrees s (c.apply i) (c'.apply i) where
  state := rfl
  head := by simp only [Ideal.apply, h.head]
  cells := by
    intro a ha
    simp only [Ideal.apply, Function.update_apply, h.head]
    split
    · rfl
    · exact h.cells a (ha.of_apply hi)

theorem run (hcode : ∀ i ∈ code, i.MovesOne) (h : Agrees (c.run code limit).steps c c') :
    (c'.run code limit).status = (c.run code limit).status ∧
      (c'.run code limit).steps = (c.run code limit).steps ∧
      Agrees 0 (c.run code limit).config (c'.run code limit).config := by
  induction limit, c using @run_induction A _ _ code generalizing c' with
  | halted limit c hc =>
    rw [run_of_halt hc] at h ⊢
    rw [run_of_halt (h.state.trans hc)]
    exact ⟨rfl, rfl, h⟩
  | timedOut c hc =>
    rw [run_zero hc] at h ⊢
    rw [run_zero (by rwa [h.state])]
    exact ⟨rfl, rfl, h⟩
  | stuck limit c hc hstep =>
    have hstep' := h.step? code (Int.natCast_nonneg _)
    rw [Option.map_eq_none_iff.1 hstep] at hstep'
    rw [run_of_stuck hc hstep] at h ⊢
    rw [run_of_stuck (by rwa [h.state]) hstep']
    exact ⟨rfl, rfl, h⟩
  | step limit c d hc hstep ih =>
    have hstep' := h.step? code (Int.natCast_nonneg _)
    obtain ⟨i, hi, hmatch, rfl⟩ := exists_of_step? hstep
    rw [hmatch] at hstep'
    rw [run_of_step hc hstep] at h ⊢
    rw [run_of_step (by rwa [h.state]) hstep']
    push_cast at h
    obtain ⟨hstatus, hsteps, hend⟩ := ih (h.apply (hcode i hi))
    exact ⟨hstatus, congrArg (· + 1) hsteps, hend⟩

end Agrees

end Ideal

/-! ## Where the head goes -/

namespace Program

/-- The instructions that the first `k` steps apply. -/
def applied (p : Program) : ℕ → Config → List Instruction
  | 0, _ => []
  | k + 1, c =>
    match p.rule? c with
    | none => []
    | some i => i :: p.applied k (c.apply i)

variable {p : Program} {c d : Config} {k : ℕ}

theorem movesOne_of_rule? {i : Instruction} (h : p.rule? c = some i) : i.MovesOne := by
  obtain ⟨k, -, hi⟩ := p.getElem?_of_rule? h
  exact (p.code_valid i (Array.mem_of_getElem? hi)).2

theorem head_after (h : p.after k c = some d) :
    let rights := (p.applied k c).countP fun i => i.move = .right
    let lefts := (p.applied k c).countP fun i => i.move = .left
    (p.applied k c).length = k ∧ rights + lefts = k ∧
      (d.tape.head : ℤ) = (c.tape.head + rights - lefts) % c.tape.size := by
  induction k generalizing c with
  | zero =>
    obtain rfl : c = d := Option.some.inj h
    have hlt : (c.tape.head : ℤ) < c.tape.size := Int.ofNat_lt.2 c.tape.head_lt
    refine ⟨rfl, rfl, ?_⟩
    simp only [applied, List.countP_nil]
    rw [Int.emod_eq_of_lt (by omega) (by omega)]
    omega
  | succ k ih =>
    rw [Program.after, step?] at h
    cases hrule : p.rule? c with
    | none => simp [hrule] at h
    | some i =>
      rw [hrule, Option.map_some, Option.bind_some] at h
      obtain ⟨hlength, hsum, hhead⟩ := ih h
      have hmove : ((c.apply i).tape.head : ℤ) = (c.tape.head + i.move.offset.toInt) % c.tape.size := by
        have hshift := (c.tape.writeHead i.write).head_shift_emod i.move.offset
        rwa [Tape.size_writeHead] at hshift
      rw [Config.size_apply, hmove, Int.sub_emod, Int.emod_add_emod, ← Int.sub_emod] at hhead
      have hone := movesOne_of_rule? hrule
      rw [hone.offset_eq] at hhead
      have hcount := hone.count
      simp only [applied, hrule, List.length_cons, List.countP_cons, decide_eq_true_eq]
      refine ⟨by omega, by omega, ?_⟩
      rw [hhead]
      congr 1
      push_cast
      omega

theorem after_steps (p : Program) (traced : Bool) (limit : ℕ) (c : Config) :
    p.after (p.run traced limit c).steps c = some (p.run traced limit c).config := by
  obtain ⟨hsteps, hleaves⟩ := p.run_leaves limit c
  have htraced : p.after (p.run true limit c).steps c = some (p.run true limit c).config := by
    rw [hsteps]
    exact hleaves.after
  cases traced with
  | true => exact htraced
  | false =>
    rw [run_untraced]
    exact htraced

end Program

/-! ## Machines -/

/-- The symbol `z` cells to the right of the head, going around. -/
def Tape.beside (t : Tape) (z : ℤ) : Symbol := t.cell ((t.head + z) % t.size).toNat

namespace Config

variable {n : ℕ} {c : Config}

theorem view_within_iff {s : ℤ} {a : ZMod n} :
    (c.view n).Within s a ↔ ∃ z : ℤ, |z| ≤ s ∧ ((c.tape.head + z : ℤ) : ZMod n) = a := by
  simp only [Ideal.Within, view_head, Int.cast_add, Int.cast_natCast]

theorem view_cells_beside (hn : c.tape.size = n) (z : ℤ) :
    (c.view n).cells ((c.tape.head + z : ℤ) : ZMod n) = c.tape.beside z := by
  have : NeZero n := ⟨fun h0 => c.tape.size_pos.ne' (hn.trans h0)⟩
  rw [← residue_toNat, view_cells_natCast hn, Tape.beside, hn]

theorem agrees_view {other : Tape} {s : ℤ} (hc : c.tape.size = n) (hsize : other.size = n)
    (hhead : other.head = c.tape.head) (h : ∀ z : ℤ, |z| ≤ s → other.beside z = c.tape.beside z) :
    Ideal.Agrees s (c.view n) ((⟨c.state, other⟩ : Config).view n) where
  state := rfl
  head := by simp only [view_head, hhead]
  cells := by
    intro a ha
    obtain ⟨z, hz, rfl⟩ := view_within_iff.1 ha
    have hother := view_cells_beside (c := ⟨c.state, other⟩) hsize z
    rw [hhead] at hother
    rw [hother, view_cells_beside hc, h z hz]

end Config

theorem Run.Follows.outcome_eq {n : ℕ} {r r' : Run} {e e' : Ideal.Ending (ZMod n)} (h : r.Follows 0 e)
    (h' : r'.Follows 0 e') (p : Program) (hstatus : e'.status = e.status) (hsteps : e'.steps = e.steps)
    (hend : Ideal.Agrees 0 e.config e'.config) : r'.outcome p = r.outcome p := by
  have hstate : r'.config.state = r.config.state := by
    have := hend.state
    rwa [← h.config, ← h'.config] at this
  have hsymbol : r'.config.tape.current = r.config.tape.current := by
    have := hend.current (Int.le_refl 0)
    rwa [← h.config, ← h'.config, Config.view_current h.size, Config.view_current h'.size] at this
  simp only [Run.outcome, h.status, h'.status, h.steps, h'.steps, hstatus, hsteps, hstate, hsymbol]

/-- A run of `s` steps changes only cells less than `s` away from the head at the start, and leaves the head
where the instructions applied have moved it. On any other tape with as many cells, its head on the same cell
and the same symbols at most `s` cells away from it, the machine tells the same. -/
theorem Machine.run_local (m : Machine) :
    let start := m.config.tape
    let n := start.size
    let s := m.run.1.steps
    let final := m.run.2.2.config.tape
    let applied := m.program.applied s m.config
    let rights := applied.countP fun i => i.move = .right
    let lefts := applied.countP fun i => i.move = .left
    (final.size = n ∧ ∀ k < n, (∀ z : ℤ, |z| ≤ s - 1 → (start.head + z) % n ≠ k) →
      final.cell k = start.cell k) ∧
    (applied.length = s ∧ rights + lefts = s ∧ (final.head : ℤ) = (start.head + rights - lefts) % n) ∧
    ∀ other : Tape, other.size = n → other.head = start.head →
      (∀ z : ℤ, |z| ≤ s → other.beside z = start.beside z) → (m.withTape other).run.1 = m.run.1 := by
  intro start n s final applied rights lefts
  have hcode : ∀ i ∈ m.program.code, i.MovesOne := fun i hi => (m.program.code_valid i hi).2
  have hrun := m.program.run_follows m.traced m.limit m.config
  have hsteps : s = ((m.config.view n).run m.program.code m.limit).steps := hrun.steps.trans (Nat.zero_add _)
  refine ⟨⟨hrun.size, fun k hk hfar => ?_⟩, ?_, fun other hsize hhead hsame => ?_⟩
  · have hcells := (m.config.view n).cells_run hcode m.limit (a := (k : ZMod n)) ?_
    · rw [← hrun.config, Config.view_cells_natCast hrun.size, Config.view_cells_natCast rfl] at hcells
      exact hcells
    · rw [← hsteps, Config.view_within_iff]
      rintro ⟨z, hz, hcell⟩
      have hcast : ((m.config.tape.head + z : ℤ) : ZMod n) = ((k : ℤ) : ZMod n) := by
        rw [hcell, Int.cast_natCast]
      have hmod := (ZMod.intCast_eq_intCast_iff' _ _ n).1 hcast
      rw [Int.emod_eq_of_lt (Int.natCast_nonneg k) (Int.ofNat_lt.2 hk)] at hmod
      exact hfar z hz hmod
  · exact Program.head_after (m.program.after_steps m.traced m.limit m.config)
  · have hrun' := m.program.run_follows m.traced m.limit ⟨m.config.state, other⟩
    rw [show (⟨m.config.state, other⟩ : Config).tape.size = n from hsize] at hrun'
    rw [hsteps] at hsame
    obtain ⟨hstatus, hsteps', hend⟩ := (Config.agrees_view rfl hsize hhead hsame).run hcode
    exact hrun.outcome_eq hrun' m.program hstatus hsteps' hend

/-- A ring of ten cells with any symbol in the cell farthest from the head. -/
def Tape.opposite (s : Symbol) : Tape where
  cells := #[.ofChar 'a', .blank, .blank, .blank, .blank, s, .blank, .blank, .blank, .blank]
  head := 0
  size_le := show 10 ≤ maxTapeSize by decide
  head_lt := show 0 < 10 by decide

/-- The machine goes one cell to the right and two to the left, and back. It writes on both sides of where it
started, and never comes near cell 5. -/
theorem Machine.run_local_opposite :
    let m := reporting.withTape (.opposite .blank)
    let final := m.run.2.2.config.tape
    m.run.1.steps = 4 ∧ (final.cell 1, final.cell 9) = (.ofChar 'c', .ofChar 'e') ∧
      (∀ k, 4 ≤ k → k ≤ 6 → final.cell k = .blank) ∧ final.head = 0 ∧
      (m.withTape (.opposite (.ofChar 'z'))).run.1 = m.run.1 := by
  intro m final
  have hsteps : m.run.1.steps = 4 := by decide +kernel
  obtain ⟨⟨-, hcells⟩, ⟨-, -, hhead⟩, hother⟩ := m.run_local
  rw [hsteps] at hcells hhead hother
  refine ⟨hsteps, by decide +kernel, fun k hlow hhigh => ?_, ?_, ?_⟩
  · have hsize : m.config.tape.size = 10 := rfl
    have hstart : m.config.tape.head = 0 := rfl
    rw [hcells k (by omega)]
    · obtain rfl | rfl | rfl : k = 4 ∨ k = 5 ∨ k = 6 := by omega
      all_goals rfl
    · intro z hz
      obtain ⟨hleft, hright⟩ := abs_le.1 hz
      rw [hstart, hsize]
      omega
  · rw [← Int.natCast_inj, hhead]
    decide +kernel
  · refine hother _ rfl rfl fun z hz => ?_
    obtain ⟨hleft, hright⟩ := abs_le.1 hz
    push_cast at hleft hright
    interval_cases z
    all_goals rfl

end LogicMill
