import LogicMill.Proofs.Resumption
import LogicMill.Proofs.Unbounded

/-! # Rotated rings

A ring has no first cell. A machine whose cells and head are all moved by `k` makes the same run, moved
by `k`, although the two pass the last cell of their arrays at different steps. The ring is cut at its
longest run of blanks, so what is rendered does not move either, unless two runs are equally long.

* `Ideal.translate k`: an ideal machine moved by `k` along its tape; `Ideal.translate_apply` and
  `Ideal.run_translate` are a step and a run of it.
* `Tape.rotate k`, `Config.rotate k`, `Machine.rotate k`: the same on the ring.
* `Tape.LoneGap`: the one longest run of blanks; `Tape.LoneGap.render_eq` says what is rendered then,
  and `Tape.LoneGap.rotate` where the run is on the rotated ring.
* `Machine.run_rotate`: the run of a rotated machine.
-/

namespace LogicMill
set_option autoImplicit false

/-! ## Ideal machines -/

namespace Ideal

variable {A : Type} [AddCommGroupWithOne A]

def translate (k : A) (c : Ideal A) : Ideal A where
  state := c.state
  cells a := c.cells (a - k)
  head := c.head + k

theorem translate_current (k : A) (c : Ideal A) :
    (c.translate k).cells (c.translate k).head = c.cells c.head := by
  simp [translate]

variable [DecidableEq A]

theorem translate_apply (k : A) (c : Ideal A) (i : Instruction) :
    (c.translate k).apply i = (c.apply i).translate k := by
  have hcells : Function.update (c.translate k).cells (c.head + k) i.write =
      fun a => Function.update c.cells c.head i.write (a - k) := by
    funext a
    simp [translate, Function.update_apply, sub_eq_iff_eq_add]
  have hhead : c.head + k + (i.move.offset.toInt : A) = c.head + i.move.offset.toInt + k :=
    add_right_comm _ _ _
  simp only [apply, translate] at hcells ⊢
  rw [hcells, hhead]

theorem step?_translate (code : Array Instruction) (k : A) (c : Ideal A) :
    (c.translate k).step? code = (c.step? code).map (translate k) := by
  have happly : (c.translate k).apply = translate k ∘ c.apply := funext (translate_apply k c)
  rw [step?, step?, translate_current, happly, Option.map_map]
  rfl

theorem run_translate (code : Array Instruction) (k : A) (limit : ℕ) (c : Ideal A) :
    (c.translate k).run code limit =
      ⟨(c.run code limit).status, (c.run code limit).steps, (c.run code limit).config.translate k⟩ := by
  induction limit generalizing c with
  | zero =>
    by_cases hc : c.state = StateId.halt
    · rw [run_of_halt hc, run_of_halt (by exact hc)]
    · rw [run_zero hc, run_zero (by exact hc)]
  | succ limit ih =>
    by_cases hc : c.state = StateId.halt
    · rw [run_of_halt hc, run_of_halt (by exact hc)]
    · have hstep := step?_translate code k c
      cases h : c.step? code with
      | none =>
        rw [h, Option.map_none] at hstep
        rw [run_of_stuck hc h, run_of_stuck (by exact hc) hstep]
      | some d =>
        rw [h, Option.map_some] at hstep
        rw [run_of_step hc h, run_of_step (by exact hc) hstep, ih d]

end Ideal

/-! ## Rings -/

namespace Tape

/-- The tape with every symbol moved by `k` cells around the ring, and the head with them. -/
def rotate (k : ℤ) (t : Tape) : Tape where
  cells := Array.ofFn fun i : Fin t.size => t.cell ((i - k) % t.size).toNat
  head := ((t.head + k) % t.size).toNat
  size_le := by
    rw [Array.size_ofFn]
    exact t.size_le
  head_lt := by
    have hpos : (0 : ℤ) < t.size := Int.natCast_pos.2 t.size_pos
    have hlt := Int.emod_lt_of_pos (t.head + k) hpos
    have hnonneg := Int.emod_nonneg (t.head + k) hpos.ne'
    simp only [Array.size_ofFn]
    omega

@[simp] theorem size_rotate (k : ℤ) (t : Tape) : (t.rotate k).size = t.size := by
  simp [rotate, size]

theorem cell_rotate (k : ℤ) (t : Tape) {j : ℕ} (hj : j < t.size) :
    (t.rotate k).cell j = t.cell ((j - k) % t.size).toNat := by
  have hj' : j % (t.rotate k).cells.size = j := Nat.mod_eq_of_lt (by simpa [rotate] using hj)
  simp only [cell, hj']
  simp [rotate, cell]

end Tape

def Config.rotate (k : ℤ) (c : Config) : Config := ⟨c.state, c.tape.rotate k⟩

/-- On the residues, the rotated configuration is the translated one. -/
theorem Config.view_rotate (k : ℤ) {n : ℕ} {c : Config} (h : c.tape.size = n) :
    (c.rotate k).view n = (c.view n).translate (k : ZMod n) := by
  have : NeZero n := ⟨fun h0 => c.tape.size_pos.ne' (h.trans h0)⟩
  have hcells : ((c.rotate k).view n).cells = ((c.view n).translate (k : ZMod n)).cells := by
    funext a
    have ha : a.val < c.tape.size := h ▸ a.val_lt
    rw [view_cells, rotate, Tape.cell_rotate k _ ha, ← view_cells_natCast h, h, residue_toNat]
    simp [Ideal.translate]
  have hhead : ((c.rotate k).view n).head = ((c.view n).translate (k : ZMod n)).head := by
    simp only [view_head, rotate, Tape.rotate, Ideal.translate]
    rw [h, residue_toNat]
    push_cast
    rfl
  have hview : (c.rotate k).view n =
      ⟨c.state, ((c.rotate k).view n).cells, ((c.rotate k).view n).head⟩ := rfl
  rw [hview, hcells, hhead]
  rfl

/-! ## Runs -/

theorem Program.run_config_rotate (p : Program) (traced : Bool) (limit : ℕ) (k : ℤ) (c : Config) :
    (p.run traced limit (c.rotate k)).status = (p.run traced limit c).status ∧
    (p.run traced limit (c.rotate k)).steps = (p.run traced limit c).steps ∧
    (p.run traced limit (c.rotate k)).config = (p.run traced limit c).config.rotate k := by
  have hrun := p.run_follows traced limit c
  have hrun' := p.run_follows traced limit (c.rotate k)
  have hsize : (c.rotate k).tape.size = c.tape.size := c.tape.size_rotate k
  rw [hsize, Config.view_rotate k rfl, Ideal.run_translate] at hrun'
  refine ⟨hrun'.status.trans hrun.status.symm, hrun'.steps.trans hrun.steps.symm, ?_⟩
  have hsize' : ((p.run traced limit c).config.rotate k).tape.size = c.tape.size :=
    (Tape.size_rotate k _).trans hrun.size
  refine Config.eq_of_view_eq hrun'.size hsize' ?_
  rw [hrun'.config, Config.view_rotate k hrun.size, hrun.config]

/-! ## Rendering -/

namespace Tape

variable {t : Tape} {j k len count : ℕ}

/-- Where cell `j` of the ring is after the rotation. -/
theorem cell_rotate_add (r : ℤ) (t : Tape) (j : ℕ) :
    (t.rotate r).cell (j + (r % t.size).toNat) = t.cell j := by
  have hpos : (0 : ℤ) < t.size := Int.natCast_pos.2 t.size_pos
  have hr := Int.emod_nonneg r hpos.ne'
  rw [← cell_mod, size_rotate, cell_rotate r t (Nat.mod_lt _ t.size_pos), ← cell_mod t j]
  congr 1
  -- Both sides are the remainder of `j`; the multiples of the size in between drop out.
  have hmod : (((j + (r % t.size).toNat) % t.size : ℕ) - r) % (t.size : ℤ) = j % (t.size : ℤ) := by
    push_cast
    rw [Int.toNat_of_nonneg hr, Int.emod_sub_emod, Int.add_sub_assoc, Int.add_emod, Int.sub_emod,
      Int.emod_emod, Int.sub_self, Int.zero_emod, Int.add_zero, Int.emod_emod]
  rw [hmod]
  exact Int.toNat_natCast _

theorem blankRun_rotate (r : ℤ) :
    (t.rotate r).BlankRun (j + (r % t.size).toNat) len ↔ t.BlankRun j len := by
  refine forall₂_congr fun i _ => ?_
  rw [Nat.add_right_comm, cell_rotate_add]

theorem slice_rotate (r : ℤ) :
    (t.rotate r).slice (j + (r % t.size).toNat) count = t.slice j count := by
  refine List.map_congr_left fun i _ => ?_
  rw [Nat.add_right_comm, cell_rotate_add]

theorem render_of_blank (h : ∀ j, t.cell j = Symbol.blank) : t.render = [] := by
  rw [render]
  cases hedge : t.edge? with
  | none => simp [h 0]
  | some edge =>
    have hcell := (isEdge_iff.1 (isEdge_of_edgeFrom? hedge)).2
    exact absurd (h (edge + 1)) hcell

instance (t : Tape) (k len : ℕ) : Decidable (t.BlankRun k len) :=
  inferInstanceAs (Decidable (∀ i < len, _))

/-- The `len` blanks from cell `k` on are the only run of that length, and none is longer. -/
structure LoneGap (t : Tape) (k len : ℕ) : Prop where
  pos : 0 < len
  blank : t.BlankRun k len
  longest : ∀ j < t.size, ¬ t.BlankRun j (len + 1)
  only : ∀ j < t.size, t.BlankRun j len → j = k

instance (t : Tape) (k len : ℕ) : Decidable (t.LoneGap k len) :=
  decidable_of_iff (0 < len ∧ t.BlankRun k len ∧ (∀ j < t.size, ¬ t.BlankRun j (len + 1)) ∧
      ∀ j < t.size, t.BlankRun j len → j = k)
    ⟨fun ⟨h, h', h'', h'''⟩ => ⟨h, h', h'', h'''⟩, fun ⟨h, h', h'', h'''⟩ => ⟨h, h', h'', h'''⟩⟩

namespace LoneGap

theorem le (h : t.LoneGap k len) {l : ℕ} (hrun : t.BlankRun j l) : l ≤ len := by
  by_contra hlt
  have hj := Nat.mod_lt j t.size_pos
  exact h.longest _ hj ((hrun.shorten (Nat.lt_of_not_le hlt)).congr (Nat.mod_mod j t.size))

theorem eq (h : t.LoneGap k len) (hrun : t.BlankRun j len) : j % t.size = k :=
  h.only _ (Nat.mod_lt j t.size_pos) (hrun.congr (Nat.mod_mod j t.size))

/-- The content is rendered from the end of the gap around to its start. -/
theorem render_eq (h : t.LoneGap k len) : t.render = t.slice (k + len) (t.size - len) := by
  rw [render]
  cases hedge : t.edge? with
  | some edge =>
    have hlongest := longest_cut (isEdge_of_edgeFrom? hedge)
    obtain ⟨q, hstart, -, hblank⟩ := hlongest.gap_blank
    have hgap : (t.cut edge).gap = len :=
      Nat.le_antisymm (h.le hblank) (hlongest.gap_max k len h.blank)
    rw [hgap] at hstart hblank
    dsimp only
    rw [hgap, hstart]
    refine slice_congr ?_
    rw [Nat.mod_mod, Nat.add_mod, h.eq hblank, Nat.add_mod_mod]
  | none =>
    -- Without an edge the gap would go on.
    obtain ⟨l, rfl⟩ := Nat.exists_eq_add_of_lt h.pos
    have hend : t.cell (k + (0 + l)) = Symbol.blank := h.blank (0 + l) (Nat.lt_succ_self _)
    have hnext : t.cell (k + (0 + l + 1)) = Symbol.blank := by
      by_contra hne
      exact not_isEdge_of_edge? hedge _ (isEdge_iff.2 ⟨hend, hne⟩)
    exact absurd (h.le (h.blank.extend hnext)) (Nat.not_succ_le_self _)

theorem rotate (h : t.LoneGap k len) (r : ℤ) :
    (t.rotate r).LoneGap ((k + (r % t.size).toNat) % t.size) len := by
  -- Every run on the rotated ring is a run on the ring, moved.
  have hback : ∀ j l, (t.rotate r).BlankRun j l →
      ∃ i, (i + (r % t.size).toNat) % t.size = j % t.size ∧ t.BlankRun i l := by
    intro j l hrun
    obtain ⟨i, -, hi⟩ := t.exists_offset (r % t.size).toNat j
    rw [Nat.add_comm] at hi
    exact ⟨i, hi, (blankRun_rotate r).1 (hrun.congr (by rw [size_rotate, hi]))⟩
  refine ⟨h.pos, ?_, ?_, ?_⟩
  · refine ((blankRun_rotate r).2 h.blank).congr ?_
    rw [size_rotate, Nat.mod_mod]
  · intro j _ hrun
    obtain ⟨i, -, hi⟩ := hback j _ hrun
    exact absurd (h.le hi) (Nat.not_succ_le_self len)
  · intro j hj hrun
    obtain ⟨i, hij, hi⟩ := hback j _ hrun
    rw [← h.eq hi, Nat.mod_add_mod, hij, Nat.mod_eq_of_lt (by simpa using hj)]

theorem render_rotate (h : t.LoneGap k len) (r : ℤ) : (t.rotate r).render = t.render := by
  have hslice : (t.rotate r).slice ((k + (r % t.size).toNat) % t.size + len) (t.size - len) =
      (t.rotate r).slice (k + len + (r % t.size).toNat) (t.size - len) := by
    refine slice_congr ?_
    rw [size_rotate, Nat.mod_add_mod, Nat.add_right_comm]
  rw [(h.rotate r).render_eq, h.render_eq, size_rotate, hslice, slice_rotate]

end LoneGap

theorem render_rotate_of_blank (h : ∀ j, t.cell j = Symbol.blank) (r : ℤ) :
    (t.rotate r).render = t.render := by
  rw [render_of_blank h, render_of_blank]
  intro j
  obtain ⟨i, -, hi⟩ := t.exists_offset (r % t.size).toNat j
  rw [Nat.add_comm] at hi
  have hcell : (t.rotate r).cell j = (t.rotate r).cell (i + (r % t.size).toNat) :=
    cell_congr (by rw [size_rotate, hi])
  rw [hcell, cell_rotate_add, h i]

end Tape

/-! ## Machines -/

def Machine.rotate (k : ℤ) (m : Machine) : Machine := { m with config := m.config.rotate k }

/-- A rotated machine tells the same of its run, and ends as the machine does, rotated. What is rendered
then is the same if the tape is blank or has one longest run of blanks. -/
theorem Machine.run_rotate (m : Machine) (k : ℤ) :
    let final := m.run.2.2.config.tape
    (m.rotate k).run.1 = m.run.1 ∧
    (m.rotate k).run.2.2 = m.run.2.2.rotate k ∧
    ((∀ j < final.size, final.cell j = Symbol.blank) ∨ (∃ j len, final.LoneGap j len) →
      (m.rotate k).run.2.2.config.tape.render = final.render) := by
  intro final
  obtain ⟨hstatus, hsteps, hconfig⟩ := m.program.run_config_rotate m.traced m.limit k m.config
  have hmachine : (m.rotate k).run.2.2 = m.run.2.2.rotate k := by
    simp only [run, rotate, traced] at hsteps hconfig ⊢
    rw [hsteps, hconfig]
  have hsymbol : ((m.program.run m.traced m.limit m.config).config.rotate k).tape.current =
      (m.program.run m.traced m.limit m.config).config.tape.current := by
    rw [← Config.view_current (Tape.size_rotate k _), Config.view_rotate k rfl,
      Ideal.translate_current, Config.view_current rfl]
  refine ⟨?_, hmachine, ?_⟩
  · simp only [run, rotate, traced, Run.outcome] at hstatus hsteps hconfig hsymbol ⊢
    rw [hstatus, hsteps, hconfig, hsymbol]
    rfl
  · intro hfinal
    rw [hmachine]
    rcases hfinal with hblank | ⟨j, len, hgap⟩
    · refine Tape.render_rotate_of_blank (fun j => ?_) k
      rw [← Tape.cell_mod, hblank _ (Nat.mod_lt j final.size_pos)]
    · exact hgap.render_rotate k

/-- The program starts in the last cell of three and writes its two symbols without passing the end of
the array; unrotated, it goes from the first cell to the last one. -/
theorem Machine.run_rotate_spilling :
    let m := spilling [.blank, .blank] (by decide)
    (m.rotate 2).run.1 = m.run.1 ∧
      (m.rotate 2).run.2.2.config.tape.render = m.run.2.2.config.tape.render := by
  intro m
  obtain ⟨houtcome, -, hrender⟩ := m.run_rotate 2
  exact ⟨houtcome, hrender (.inr ⟨1, 1, by decide +kernel⟩)⟩

end LogicMill
