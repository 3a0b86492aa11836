import LogicMill.Tape.Render
import LogicMill.Proofs.Ideal
import Mathlib.Data.ZMod.Basic

/-! # The ring as a tape of residues

A tape of `n` cells is addressed by the residues modulo `n`; no position has to be wrapped around.

* `Tape.cell_writeHead`, `Tape.head_shift`: what writing and moving do to cells and head.
* `Config.view`: a configuration seen as an ideal machine on the residues.
* `Config.eq_of_view_eq`: nothing is lost in it.
* `Config.view_apply`, `Program.rule?_eq_firstMatch`: a step on the ring is a step of the ideal machine.
-/

namespace LogicMill
set_option autoImplicit false

/-! ## Cells and head -/

namespace Tape

theorem cell_mod (t : Tape) (k : ℕ) : t.cell (k % t.size) = t.cell k := by
  simp [cell, size]

theorem getElem?_cells {t : Tape} {k : ℕ} (h : k < t.size) : t.cells[k]? = some (t.cell k) := by
  have hk : k < t.cells.size := h
  simp [cell, Nat.mod_eq_of_lt hk]

theorem cell_head (t : Tape) : t.cell t.head = t.current := by
  simp [cell, current, Nat.mod_eq_of_lt t.head_lt]

@[simp] theorem size_writeHead (t : Tape) (s : Symbol) : (t.writeHead s).size = t.size := by
  simp [size, writeHead]

@[simp] theorem size_shift (t : Tape) (offset : Int8) : (t.shift offset).size = t.size := rfl

@[simp] theorem cell_shift (t : Tape) (offset : Int8) (k : ℕ) :
    (t.shift offset).cell k = t.cell k := rfl

theorem cell_writeHead (t : Tape) (s : Symbol) (k : ℕ) :
    (t.writeHead s).cell k = if k % t.size = t.head then s else t.cell k := by
  simp only [cell, writeHead, size, Array.size_set, Array.getElem_set]
  simp only [eq_comm]

/-- The offset is added to the head without overflow, whatever the size of the tape. -/
theorem toInt_head_add (t : Tape) (offset : Int8) :
    (Int64.ofNat t.head + offset.toInt64).toInt = t.head + offset.toInt := by
  have hsize : t.cells.size ≤ 1048576 := t.size_le
  have hhead := t.head_lt
  have hlow := Int8.le_toInt offset
  have hhigh := Int8.toInt_lt offset
  rw [Int64.toInt_add, Int64.toInt_ofNat_of_lt (by omega), Int8.toInt_toInt64]
  exact Int.bmod_eq_of_le (by omega) (by omega)

theorem head_shift_emod (t : Tape) (offset : Int8) :
    ((t.shift offset).head : ℤ) = (t.head + offset.toInt) % t.size := by
  rw [← toInt_head_add]
  exact Ring.toInt_cellOf t.size_pos t.size_le _

/-- The head moves by its offset modulo the size of the tape. -/
theorem head_shift (t : Tape) (offset : Int8) :
    ((t.shift offset).head : ZMod t.size) = t.head + (offset.toInt : ZMod t.size) := by
  calc ((t.shift offset).head : ZMod t.size)
      = (((t.shift offset).head : ℤ) : ZMod t.size) := by rw [Int.cast_natCast]
    _ = ((t.head + offset.toInt : ℤ) : ZMod t.size) := by rw [head_shift_emod, ZMod.intCast_mod]
    _ = t.head + (offset.toInt : ZMod t.size) := by push_cast; rfl

end Tape

/-! ## Configurations -/

namespace Config

/-- A configuration on a tape of `n` cells as an ideal machine on the residues modulo `n`. -/
def view (n : ℕ) (c : Config) : Ideal (ZMod n) where
  state := c.state
  cells a := c.tape.cell a.val
  head := c.tape.head

variable {n : ℕ} {c : Config}

@[simp] theorem view_state : (c.view n).state = c.state := rfl

@[simp] theorem view_cells (a : ZMod n) : (c.view n).cells a = c.tape.cell a.val := rfl

@[simp] theorem view_head : (c.view n).head = (c.tape.head : ZMod n) := rfl

/-- A residue taken from a natural number names the cell with that number. -/
theorem view_cells_natCast (h : c.tape.size = n) (k : ℕ) :
    (c.view n).cells (k : ZMod n) = c.tape.cell k := by
  rw [view_cells, ZMod.val_natCast, ← h, Tape.cell_mod]

theorem view_current (h : c.tape.size = n) :
    (c.view n).cells (c.view n).head = c.tape.current := by
  rw [view_head, view_cells_natCast h, Tape.cell_head]

/-- Two configurations on tapes of one size that look the same are the same. -/
theorem eq_of_view_eq {d : Config} (hc : c.tape.size = n) (hd : d.tape.size = n)
    (h : c.view n = d.view n) : c = d := by
  have hstate : c.state = d.state := congrArg Ideal.state h
  have hcell (k : ℕ) : c.tape.cell k = d.tape.cell k := by
    rw [← view_cells_natCast hc, h, view_cells_natCast hd]
  have hcells : c.tape.cells = d.tape.cells := by
    refine Array.ext_getElem? fun k => ?_
    by_cases hk : k < n
    · rw [Tape.getElem?_cells (hc ▸ hk), Tape.getElem?_cells (hd ▸ hk), hcell]
    · rw [Array.getElem?_eq_none (hc.trans_le (Nat.le_of_not_lt hk)),
        Array.getElem?_eq_none (hd.trans_le (Nat.le_of_not_lt hk))]
  have hhead : c.tape.head = d.tape.head := by
    have hcast : (c.tape.head : ZMod n) = d.tape.head := congrArg Ideal.head h
    rw [ZMod.natCast_eq_natCast_iff'] at hcast
    rwa [Nat.mod_eq_of_lt (hc ▸ c.tape.head_lt), Nat.mod_eq_of_lt (hd ▸ d.tape.head_lt)] at hcast
  obtain ⟨state, cells, head, hsize, hlt⟩ := c
  obtain ⟨state', cells', head', hsize', hlt'⟩ := d
  cases hstate
  cases hcells
  cases hhead
  rfl

/-! ## Steps -/

@[simp] theorem size_apply (c : Config) (i : Instruction) :
    (c.apply i).tape.size = c.tape.size := by
  rw [apply, Tape.size_shift, Tape.size_writeHead]

/-- An instruction does to the ring what it does to the tape of residues. -/
theorem view_apply (h : c.tape.size = n) (i : Instruction) :
    (c.apply i).view n = (c.view n).apply i := by
  have : NeZero n := ⟨fun h0 => c.tape.size_pos.ne' (h.trans h0)⟩
  have hcells : ((c.apply i).view n).cells =
      Function.update (c.view n).cells (c.view n).head i.write := by
    funext a
    rw [view_cells, apply, Tape.cell_shift, Tape.cell_writeHead, h, Nat.mod_eq_of_lt a.val_lt,
      Function.update_apply, view_head, view_cells]
    have hval : a.val = c.tape.head ↔ a = (c.tape.head : ZMod n) := by
      constructor
      · intro hval
        rw [← hval, ZMod.natCast_zmod_val]
      · rintro rfl
        exact ZMod.val_natCast_of_lt (h ▸ c.tape.head_lt)
    simp only [hval]
  have hhead : ((c.apply i).view n).head =
      (c.view n).head + (i.move.offset.toInt : ZMod n) := by
    have hmove := (c.tape.writeHead i.write).head_shift i.move.offset
    rw [Tape.size_writeHead, h] at hmove
    exact hmove
  rw [Ideal.apply, ← hcells, ← hhead]
  rfl

end Config

/-- The index gives the instruction that the ideal machine finds by searching the code. -/
theorem Program.rule?_eq_firstMatch (p : Program) {c : Config} {n : ℕ} (h : c.tape.size = n) :
    p.rule? c = firstMatch p.code (c.view n).state ((c.view n).cells (c.view n).head) := by
  rw [Program.rule?, Program.lookup_eq_firstMatch, Config.view_current h, Config.view_state]

end LogicMill
