import LogicMill.Proofs.Run
import LogicMill.Proofs.Cut
import Mathlib.Data.Int.ConditionallyCompleteOrder
import Mathlib.Order.Interval.Set.Defs

/-! # The ring and the tape without ends

As long as the head and the input stay within as many consecutive positions as the ring has cells,
the ring does for the machine what a tape without ends would do.

* `Ideal.unbounded`: the start on a tape without ends.
* `Ideal.Matches`: the two tapes agree on an interval, and are blank beyond it. It is kept by a step
  (`Ideal.Matches.apply`) and by a run (`Ideal.Matches.run`).
* `Ideal.Spans`, `Ideal.GapsBelow`, `Ideal.stretch`: the content of a tape without ends.
* `Machine.run_unbounded`: what a run on the ring has in common with the run on the tape without ends.
-/

namespace LogicMill
set_option autoImplicit false

namespace Ideal

/-- The start on a tape without ends that holds the input from position 0 on. -/
def unbounded (state : StateId) (input : List Symbol) : Ideal ℤ where
  state
  cells z := if 0 ≤ z then input.getD z.toNat Symbol.blank else Symbol.blank
  head := 0

theorem unbounded_natCast (state : StateId) (input : List Symbol) (k : ℕ) :
    (unbounded state input).cells k = input.getD k Symbol.blank := by
  simp only [unbounded, if_pos (Int.natCast_nonneg k), Int.toNat_natCast]

theorem unbounded_blank {state : StateId} {input : List Symbol} {z : ℤ}
    (h : ∀ k < input.length, z ≠ k) : (unbounded state input).cells z = Symbol.blank := by
  by_cases hz : 0 ≤ z
  · obtain ⟨k, rfl⟩ := Int.eq_ofNat_of_zero_le hz
    have hk : input.length ≤ k := Nat.le_of_not_lt fun hlt => h k hlt rfl
    rw [unbounded_natCast, List.getD_eq_getElem?_getD, List.getElem?_eq_none hk, Option.getD_none]
  · simp only [unbounded, if_neg hz]

/-- The non-blank cells lie between positions `a` and `b`, and these are two of them. -/
structure Spans (c : Ideal ℤ) (a b : ℤ) : Prop where
  le : a ≤ b
  left : c.cells a ≠ Symbol.blank
  right : c.cells b ≠ Symbol.blank
  within : ∀ z, c.cells z ≠ Symbol.blank → z ∈ Set.Icc a b

/-- Every run of blanks between positions `a` and `b` is shorter than `bound`. -/
def GapsBelow (c : Ideal ℤ) (a b bound : ℤ) : Prop :=
  ∀ x y, a ≤ x → x ≤ y → y ≤ b → (∀ z ∈ Set.Icc x y, c.cells z = Symbol.blank) → y - x + 1 < bound

/-- The symbols from position `a` to position `b`. -/
def stretch (c : Ideal ℤ) (a b : ℤ) : List Symbol :=
  (List.range (b - a + 1).toNat).map fun k : ℕ => c.cells (a + k)

theorem eq_of_residue_eq {n : ℕ} {lo hi z w : ℤ} (hlen : hi ≤ lo + n) (hz : z ∈ Set.Ico lo hi)
    (hw : w ∈ Set.Ico lo hi) (h : (z : ZMod n) = w) : z = w := by
  obtain ⟨hz1, hz2⟩ := hz
  obtain ⟨hw1, hw2⟩ := hw
  -- The difference is a multiple of `n` and less than `n`.
  have hdvd : (n : ℤ) ∣ w - z := (ZMod.intCast_eq_intCast_iff_dvd_sub z w n).1 h
  have hzero : w - z = 0 := Int.eq_zero_of_abs_lt_dvd hdvd (abs_lt.2 ⟨by omega, by omega⟩)
  omega

/-- A tape without ends and a ring of `n` cells hold the same symbols at the positions of an interval,
and no others. -/
structure Matches {n : ℕ} (lo hi : ℤ) (c : Ideal ℤ) (d : Ideal (ZMod n)) : Prop where
  state : c.state = d.state
  head : (c.head : ZMod n) = d.head
  cells : ∀ z ∈ Set.Ico lo hi, c.cells z = d.cells (z : ZMod n)
  beyond : ∀ z ∉ Set.Ico lo hi, c.cells z = Symbol.blank
  rest : ∀ a : ZMod n, (∀ z ∈ Set.Ico lo hi, (z : ZMod n) ≠ a) → d.cells a = Symbol.blank

namespace Matches

variable {n : ℕ} {lo hi : ℤ} {c : Ideal ℤ} {d : Ideal (ZMod n)} {code : Array Instruction}

theorem current (h : Matches lo hi c d) (hhead : c.head ∈ Set.Ico lo hi) :
    c.cells c.head = d.cells d.head := by
  rw [h.cells c.head hhead, h.head]

/-- An instruction that writes within the interval keeps the tapes alike. -/
theorem apply (h : Matches lo hi c d) (hlen : hi ≤ lo + n) (hhead : c.head ∈ Set.Ico lo hi)
    (i : Instruction) : Matches lo hi (c.apply i) (d.apply i) where
  state := rfl
  head := by
    simp only [Ideal.apply]
    push_cast
    rw [h.head]
  cells := by
    intro z hz
    simp only [Ideal.apply, Function.update_apply, ← h.head]
    by_cases heq : z = c.head
    · rw [if_pos heq, if_pos (congrArg _ heq)]
    · have hne : (z : ZMod n) ≠ c.head := fun h => heq (eq_of_residue_eq hlen hz hhead h)
      rw [if_neg heq, if_neg hne]
      exact h.cells z hz
  beyond := by
    intro z hz
    have hne : z ≠ c.head := fun heq => hz (heq ▸ hhead)
    simp only [Ideal.apply, Function.update_apply, if_neg hne]
    exact h.beyond z hz
  rest := by
    intro a ha
    have hne : a ≠ d.head := fun heq => ha c.head hhead (h.head.trans heq.symm)
    simp only [Ideal.apply, Function.update_apply, if_neg hne]
    exact h.rest a ha

theorem step?_eq (h : Matches lo hi c d) (hhead : c.head ∈ Set.Ico lo hi) :
    c.step? code = (firstMatch code d.state (d.cells d.head)).map c.apply := by
  rw [Ideal.step?, h.state, h.current hhead]

/-- Runs whose head stays in the interval end alike, on tapes that are alike. -/
theorem run (h : Matches lo hi c d) (hlen : hi ≤ lo + n) (limit : ℕ)
    (hheads : ∀ j ≤ (c.run code limit).steps, ∀ e ∈ c.after code j, e.head ∈ Set.Ico lo hi) :
    (c.run code limit).status = (d.run code limit).status ∧
      (c.run code limit).steps = (d.run code limit).steps ∧
      Matches lo hi (c.run code limit).config (d.run code limit).config := by
  have hhead : c.head ∈ Set.Ico lo hi := hheads 0 (Nat.zero_le _) c rfl
  induction limit generalizing c d with
  | zero =>
    by_cases hc : c.state = StateId.halt
    · rw [run_of_halt hc, run_of_halt (h.state ▸ hc)]
      exact ⟨rfl, rfl, h⟩
    · rw [run_zero hc, run_zero (h.state ▸ hc)]
      exact ⟨rfl, rfl, h⟩
  | succ limit ih =>
    by_cases hc : c.state = StateId.halt
    · rw [run_of_halt hc, run_of_halt (h.state ▸ hc)]
      exact ⟨rfl, rfl, h⟩
    · have hd : d.state ≠ StateId.halt := h.state ▸ hc
      have hstep : c.step? code = (firstMatch code d.state (d.cells d.head)).map c.apply :=
        h.step?_eq hhead
      cases hrule : firstMatch code d.state (d.cells d.head) with
      | none =>
        rw [run_of_stuck hc (by rw [hstep, hrule, Option.map_none]),
          run_of_stuck hd (by rw [Ideal.step?, hrule, Option.map_none])]
        exact ⟨rfl, rfl, h⟩
      | some i =>
        have hcstep : c.step? code = some (c.apply i) := by rw [hstep, hrule, Option.map_some]
        have hdstep : d.step? code = some (d.apply i) := by rw [Ideal.step?, hrule, Option.map_some]
        rw [run_of_step hc hcstep] at hheads ⊢
        rw [run_of_step hd hdstep]
        have hnext : ∀ j ≤ ((c.apply i).run code limit).steps,
            ∀ e ∈ (c.apply i).after code j, e.head ∈ Set.Ico lo hi := by
          intro j hj e he
          exact hheads (j + 1) (Nat.succ_le_succ hj) e (by rwa [after_succ hcstep])
        obtain ⟨hstatus, hsteps, hmatch⟩ := ih (h.apply hlen hhead i) hnext
          (hnext 0 (Nat.zero_le _) _ rfl)
        exact ⟨hstatus, congrArg (· + 1) hsteps, hmatch⟩

end Matches

end Ideal

/-! ## Seeded tapes -/

namespace Tape

theorem seed_eq_ok {t t' : Tape} {input : List Symbol} (h : t.seed input = .ok t') :
    input.length ≤ t'.size ∧ t'.head = 0 ∧
      ∀ k < t'.size, t'.cell k = input.getD k Symbol.blank := by
  rw [seed] at h
  split at h
  · next hle =>
    obtain rfl := Except.ok.inj h
    refine ⟨by simp [size], rfl, fun k hk => ?_⟩
    have hcell := getElem?_cells hk
    rw [List.getD_eq_getElem?_getD, ← Option.some_inj, ← hcell]
    by_cases hin : k < input.length
    · rw [Array.getElem?_append_left (by simpa using hin)]
      simp [hin]
    · have hout : k - input.length < t.cells.size - input.length := by
        have hlt : k < input.length + (t.cells.size - input.length) := by simpa [size] using hk
        omega
      rw [Array.getElem?_append_right (by simpa using hin), List.getElem?_eq_none (by omega)]
      simp [hout]
  · cases h

end Tape

/-- The input on the ring is the input on the tape without ends, if its positions are in the
interval. -/
theorem Ideal.matches_seed {c : Config} {t : Tape} {input : List Symbol} {lo hi : ℤ}
    (hseed : t.seed input = .ok c.tape) (hlen : hi ≤ lo + c.tape.size)
    (hinput : ∀ k < input.length, (k : ℤ) ∈ Set.Ico lo hi) :
    Ideal.Matches lo hi (Ideal.unbounded c.state input) (c.view c.tape.size) := by
  obtain ⟨hle, hhead, hcell⟩ := Tape.seed_eq_ok hseed
  have hpos : NeZero c.tape.size := ⟨c.tape.size_pos.ne'⟩
  have hin : ∀ a : ZMod c.tape.size, ((a.val : ℤ) : ZMod c.tape.size) = a := by
    intro a
    rw [Int.cast_natCast, ZMod.natCast_zmod_val]
  have hblank : ∀ a : ZMod c.tape.size, input.length ≤ a.val →
      (c.view c.tape.size).cells a = Symbol.blank := by
    intro a ha
    rw [Config.view_cells, hcell _ a.val_lt, List.getD_eq_getElem?_getD,
      List.getElem?_eq_none ha, Option.getD_none]
  refine ⟨rfl, ?_, ?_, ?_, ?_⟩
  · rw [Config.view_head, hhead]
    exact Int.cast_zero.trans Nat.cast_zero.symm
  · intro z hz
    by_cases hval : (z : ZMod c.tape.size).val < input.length
    · have hz' := Ideal.eq_of_residue_eq hlen (hinput _ hval) hz (hin z)
      rw [Config.view_cells, hcell _ (ZMod.val_lt _), ← Ideal.unbounded_natCast c.state, hz']
    · rw [hblank z (Nat.le_of_not_lt hval)]
      apply Ideal.unbounded_blank
      rintro k hk rfl
      apply hval
      rwa [Int.cast_natCast, ZMod.val_natCast_of_lt (Nat.lt_of_lt_of_le hk hle)]
  · intro z hz
    apply Ideal.unbounded_blank
    rintro k hk rfl
    exact hz (hinput k hk)
  · intro a ha
    apply hblank
    by_contra hval
    exact ha a.val (hinput a.val (Nat.lt_of_not_le hval)) (hin a)

/-! ## The ring after a run -/

theorem residue_toNat {n : ℕ} [NeZero n] (z : ℤ) : (((z % n).toNat : ℕ) : ZMod n) = z := by
  have hn : (n : ℤ) ≠ 0 := Int.natCast_ne_zero.2 (NeZero.ne n)
  rw [← Int.cast_natCast, Int.toNat_of_nonneg (Int.emod_nonneg z hn), ZMod.intCast_mod]

namespace Ideal.Matches

variable {n : ℕ} {lo hi a b : ℤ} {e : Ideal ℤ} {c : Config}

theorem tape_cell (h : Matches lo hi e (c.view n)) (hn : c.tape.size = n) {z : ℤ}
    (hz : z ∈ Set.Ico lo hi) {k : ℕ} (hk : (k : ZMod n) = z) : c.tape.cell k = e.cells z := by
  rw [h.cells z hz, ← hk, Config.view_cells_natCast hn]

theorem tape_cell_rest (h : Matches lo hi e (c.view n)) (hn : c.tape.size = n) {k : ℕ}
    (hk : ∀ z ∈ Set.Ico lo hi, (z : ZMod n) ≠ k) : c.tape.cell k = Symbol.blank := by
  rw [← Config.view_cells_natCast hn]
  exact h.rest k hk

theorem tape_head (h : Matches lo hi e (c.view n)) (hn : c.tape.size = n) :
    (c.tape.head : ℤ) = e.head % n := by
  have hmod : e.head % n = (c.tape.head : ℤ) % n := by
    rw [← ZMod.intCast_eq_intCast_iff', h.head, Config.view_head, Int.cast_natCast]
  have hlt : c.tape.head < n := hn ▸ c.tape.head_lt
  rw [hmod, Int.emod_eq_of_lt (Int.natCast_nonneg _) (Int.ofNat_lt.2 hlt)]

theorem mem_of_ne_blank {d : Ideal (ZMod n)} (h : Matches lo hi e d) {z : ℤ}
    (hz : e.cells z ≠ Symbol.blank) : z ∈ Set.Ico lo hi :=
  by_contra fun hout => hz (h.beyond z hout)

theorem tape_cell_add (h : Matches lo hi e (c.view n)) (hn : c.tape.size = n) {k : ℕ}
    (hk : a + k ∈ Set.Ico lo hi) : c.tape.cell ((a % n).toNat + k) = e.cells (a + k) := by
  have : NeZero n := ⟨fun h0 => c.tape.size_pos.ne' (hn.trans h0)⟩
  refine h.tape_cell hn hk ?_
  push_cast
  rw [residue_toNat]

theorem tape_cell_around (h : Matches lo hi e (c.view n)) (hn : c.tape.size = n)
    (hspan : e.Spans a b) {k : ℕ} (hk : b - a < k) (hkn : k < n) :
    c.tape.cell ((a % n).toNat + k) = Symbol.blank := by
  have : NeZero n := ⟨fun h0 => c.tape.size_pos.ne' (hn.trans h0)⟩
  have hcast : (((a % n).toNat + k : ℕ) : ZMod n) = ((a + k : ℤ) : ZMod n) := by
    push_cast
    rw [residue_toNat]
  by_cases hz : ∃ z ∈ Set.Ico lo hi, (z : ZMod n) = ((a + k : ℤ) : ZMod n)
  · obtain ⟨z, hmem, hz⟩ := hz
    rw [h.tape_cell hn hmem (hcast.trans hz.symm)]
    -- A non-blank position with this residue would lie in the span, less than `n` before `a + k`.
    by_contra hne
    obtain ⟨haz, hzb⟩ := hspan.within z hne
    have hdvd : (n : ℤ) ∣ a + k - z := (ZMod.intCast_eq_intCast_iff_dvd_sub z (a + k) n).1 hz
    have hle := Int.le_of_dvd (by omega) hdvd
    omega
  · push Not at hz
    exact h.tape_cell_rest hn fun z hmem heq => hz z hmem (heq.trans hcast)

/-- The content of the tape without ends is the content of the ring. -/
theorem content (h : Matches lo hi e (c.view n)) (hn : c.tape.size = n) (hlen : hi ≤ lo + n)
    (hspan : e.Spans a b) (hgaps : e.GapsBelow a b (n - (b - a + 1)))
    (hfull : b - a + 1 < n ∨ (n : ℤ) ∣ a) :
    c.tape.Content (a % n).toNat (b - a + 1).toNat := by
  have hle := hspan.le
  have ha := h.mem_of_ne_blank hspan.left
  have hb := h.mem_of_ne_blank hspan.right
  have hcell : ∀ k : ℕ, a + k ≤ b → c.tape.cell ((a % n).toNat + k) = e.cells (a + k) := by
    intro k hk
    exact h.tape_cell_add hn ⟨by have := ha.1; omega, by have := hb.2; omega⟩
  refine ⟨by omega, ?_, ?_, ?_, ?_, ?_, ?_⟩
  · have := ha.1
    have := hb.2
    omega
  · have hfirst := hcell 0 (by simpa using hle)
    rw [Nat.add_zero] at hfirst
    rw [hfirst]
    simpa using hspan.left
  · rw [hcell _ (by omega)]
    have hlast : a + ((b - a + 1).toNat - 1 : ℕ) = b := by omega
    rw [hlast]
    exact hspan.right
  · intro i hi
    rw [Nat.add_assoc]
    exact h.tape_cell_around hn hspan (by omega) (by omega)
  · intro j l hl hjl hrun
    have hgap := hgaps (a + j) (a + j + (l - 1)) (by omega) (by omega) (by omega) ?_
    · omega
    · rintro z ⟨hz1, hz2⟩
      obtain ⟨i, rfl⟩ : ∃ i : ℕ, z = a + (j + i : ℕ) := ⟨(z - a - j).toNat, by omega⟩
      rw [← hcell _ (by omega), ← Nat.add_assoc]
      exact hrun i (by omega)
  · rcases hfull with hlt | hdvd
    · left
      omega
    · right
      rw [Int.emod_eq_zero_of_dvd hdvd]
      exact Nat.dvd_zero _

theorem render_eq (h : Matches lo hi e (c.view n)) (hn : c.tape.size = n) (hlen : hi ≤ lo + n)
    (hspan : e.Spans a b) (hgaps : e.GapsBelow a b (n - (b - a + 1)))
    (hfull : b - a + 1 < n ∨ (n : ℤ) ∣ a) : c.tape.render = e.stretch a b := by
  rw [(h.content hn hlen hspan hgaps hfull).render_eq, Tape.slice, stretch]
  refine List.map_congr_left fun k hk => ?_
  have hk' : k < (b - a + 1).toNat := List.mem_range.1 hk
  have ha := h.mem_of_ne_blank hspan.left
  have hb := h.mem_of_ne_blank hspan.right
  exact h.tape_cell_add hn ⟨by have := ha.1; omega, by have := hb.2; omega⟩

end Ideal.Matches

/-! ## Machines -/

/-- On a ring of `n` cells a machine does what it does on a tape without ends, as long as the input
and the head stay within `n` consecutive positions. Content that leaves more of the ring blank than
any blanks inside it, and does not fill the ring or else starts in cell 0, is what is rendered. -/
theorem Machine.run_unbounded (m : Machine) (t : Tape) (input : List Symbol) (lo hi : ℤ)
    (hseed : t.seed input = .ok m.config.tape) (hlen : hi ≤ lo + m.config.tape.size)
    (hinput : ∀ k < input.length, (k : ℤ) ∈ Set.Ico lo hi)
    (hheads : ∀ j ≤ ((Ideal.unbounded m.config.state input).run m.program.code m.limit).steps,
      ∀ d ∈ (Ideal.unbounded m.config.state input).after m.program.code j, d.head ∈ Set.Ico lo hi) :
    let n := m.config.tape.size
    let ending := (Ideal.unbounded m.config.state input).run m.program.code m.limit
    let final := ending.config
    let outcome := m.run.1
    let tape := m.run.2.2.config.tape
    (outcome.status = ending.status ∧ outcome.steps = ending.steps ∧
      outcome.state = final.state ∧ outcome.symbol = final.cells final.head) ∧
    tape.size = n ∧ (tape.head : ℤ) = final.head % n ∧
    (∀ z ∈ Set.Ico lo hi, tape.cell (z % n).toNat = final.cells z) ∧
    (∀ k < n, (∀ z ∈ Set.Ico lo hi, z % n ≠ k) → tape.cell k = Symbol.blank) ∧
    ∀ a b, final.Spans a b → final.GapsBelow a b (n - (b - a + 1)) →
      (b - a + 1 < n ∨ (n : ℤ) ∣ a) → tape.render = final.stretch a b := by
  intro n ending final outcome tape
  have : NeZero n := ⟨m.config.tape.size_pos.ne'⟩
  have hrun := m.program.run_follows m.traced m.limit m.config
  obtain ⟨hstatus, hsteps, hmatch⟩ := (Ideal.matches_seed hseed hlen hinput).run hlen m.limit hheads
  rw [← hrun.config] at hmatch
  have hsize : tape.size = n := hrun.size
  have hlast : final.head ∈ Set.Ico lo hi :=
    hheads ending.steps (Nat.le_refl _) final (Ideal.after_run _ _ _)
  refine ⟨⟨?_, ?_, ?_, ?_⟩, hsize, hmatch.tape_head hsize, ?_, ?_, ?_⟩
  · exact hrun.status.trans hstatus.symm
  · exact (hrun.steps.trans (Nat.zero_add _)).trans hsteps.symm
  · exact hmatch.state.symm
  · rw [hmatch.current hlast]
    exact (Config.view_current hrun.size).symm
  · intro z hz
    exact hmatch.tape_cell hsize hz (residue_toNat z)
  · intro k hk hout
    refine hmatch.tape_cell_rest hsize fun z hz heq => hout z hz ?_
    rw [← Int.cast_natCast, ZMod.intCast_eq_intCast_iff'] at heq
    rw [heq, Int.emod_eq_of_lt (Int.natCast_nonneg _) (Int.ofNat_lt.2 hk)]
  · intro a b hspan hgaps hfull
    exact hmatch.render_eq hsize hlen hspan hgaps hfull

/-! ## A full ring -/

/-- Write `y` over `z` and go left, then write `x` over the blank there and halt. -/
def spillCode : Array Instruction :=
  #[⟨StateId.init, .ofChar 'z', StateId.init, .ofChar 'y', .left⟩,
    ⟨StateId.init, .blank, StateId.halt, .ofChar 'x', .right⟩]

def spill : Program where
  states := StateTable.initial
  code := spillCode
  index := .ofCode spillCode
  code_valid := by decide
  size_le := by decide
  index_eq := rfl

/-- The program on a tape that holds `z` and then the given symbols. -/
def spilling (more : List Symbol) (h : more.length < maxTapeSize) : Machine where
  program := spill
  config := ⟨StateId.init, ⟨(.ofChar 'z' :: more).toArray, 0, by simpa using h, by simp⟩⟩

/-- Where the program ends on a tape without ends. -/
def spilt : Ideal ℤ :=
  ((Ideal.unbounded StateId.init [.ofChar 'z']).run spillCode defaultStepLimit).config

theorem spilt_cells : spilt.cells =
    Function.update (Function.update (Ideal.unbounded StateId.init [.ofChar 'z']).cells 0
      (.ofChar 'y')) (-1) (.ofChar 'x') := rfl

theorem spans_spilt : spilt.Spans (-1) 0 := by
  refine ⟨by decide, by decide, by decide, fun z hz => ?_⟩
  by_contra hout
  have hleft : z ≠ -1 := by
    rintro rfl
    exact hout (by decide)
  have hright : z ≠ 0 := by
    rintro rfl
    exact hout (by decide)
  apply hz
  rw [spilt_cells, Function.update_of_ne hleft, Function.update_of_ne hright]
  apply Ideal.unbounded_blank
  intro k hk
  obtain rfl : k = 0 := by simpa using hk
  exact hright

theorem gapsBelow_spilt (bound : ℤ) : spilt.GapsBelow (-1) 0 bound := by
  intro x y hx hxy hy hblank
  have hcell := hblank x ⟨Int.le_refl x, hxy⟩
  obtain rfl | rfl : x = -1 ∨ x = 0 := by omega
  · exact absurd hcell (by decide)
  · exact absurd hcell (by decide)

/-- On a ring of three cells, the symbols come out in their order on the tape without ends. -/
theorem Machine.run_unbounded_spilling :
    (spilling [.blank, .blank] (by decide)).run.2.2.config.tape.render =
      [.ofChar 'x', .ofChar 'y'] := by
  have h := Machine.run_unbounded (spilling [.blank, .blank] (by decide))
    (spilling [.blank, .blank] (by decide)).config.tape [.ofChar 'z'] (-1) 1 rfl (by decide)
    (by decide) (by decide)
  obtain ⟨-, -, -, -, -, hrender⟩ := h
  exact hrender (-1) 0 spans_spilt (gapsBelow_spilt _) (.inl (by decide))

/-- On a ring that they fill, they come out as they stand in the cells: the condition on how much of
the ring the content leaves blank cannot be dropped, even where there is no blank inside. -/
theorem Machine.render_full_ring :
    ¬ ∀ (m : Machine) (t : Tape) (input : List Symbol) (lo hi : ℤ),
      t.seed input = .ok m.config.tape → hi ≤ lo + m.config.tape.size →
      (∀ k < input.length, (k : ℤ) ∈ Set.Ico lo hi) →
      (∀ j ≤ ((Ideal.unbounded m.config.state input).run m.program.code m.limit).steps,
        ∀ d ∈ (Ideal.unbounded m.config.state input).after m.program.code j,
          d.head ∈ Set.Ico lo hi) →
      let n := m.config.tape.size
      let final := ((Ideal.unbounded m.config.state input).run m.program.code m.limit).config
      ∀ a b, final.Spans a b → final.GapsBelow a b (n - (b - a + 1)) →
        m.run.2.2.config.tape.render = final.stretch a b := by
  intro h
  have hrender := h (spilling [.blank] (by decide)) (spilling [.blank] (by decide)).config.tape
    [.ofChar 'z'] (-1) 1 rfl (by decide) (by decide) (by decide) (-1) 0 spans_spilt
    (gapsBelow_spilt _)
  exact absurd hrender (by decide +kernel)

end LogicMill
