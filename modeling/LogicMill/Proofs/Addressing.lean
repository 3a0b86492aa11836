import LogicMill.Proofs.RingView
import Mathlib.Data.Int.ModEq

/-! # Positions on the ring

Any 64-bit integer is a position on a tape. Two positions name the same cell exactly if they are congruent
modulo the size, so a tape is a periodic map from positions to symbols, of which writing changes the symbol at
one position and at all positions congruent to it.

* `Tape.cellOf_eq_iff`: the positions of a cell.
* `Tape.writeAll`, `Tape.lastWrite?`: a sequence of writes, and the last one that concerns a position.
* `Tape.read_write`, `Tape.read_writeAll`: what is read after one write, and after any sequence of writes.
* `Tape.shift_shift`: opposite moves undo each other.
* `Tape.addressing_exact`: all of this, with the arithmetic that is behind it.
-/

namespace LogicMill.Tape
set_option autoImplicit false

variable (t : Tape)

/-! ## Cells -/

theorem toInt_cellOf (pos : Int64) : (t.cellOf pos : ℤ) = pos.toInt % t.size :=
  Ring.toInt_cellOf t.size_pos t.size_le pos

variable {t} in
theorem cellOf_eq_iff {p q : Int64} :
    t.cellOf p = t.cellOf q ↔ p.toInt ≡ q.toInt [ZMOD t.size] := by
  rw [← Int.natCast_inj, toInt_cellOf, toInt_cellOf]
  rfl

theorem read_eq_cell (pos : Int64) : t.read pos = t.cell (pos.toInt % t.size).toNat := by
  have hcell : (pos.toInt % t.size).toNat = t.cellOf pos := by
    rw [← toInt_cellOf, Int.toNat_natCast]
  simp [hcell, read, cell, Nat.mod_eq_of_lt (t.cellOf_lt pos)]

theorem current_setHead (pos : Int64) : (t.setHead pos).current = t.read pos := rfl

/-! ## Writes -/

@[simp] theorem size_write (pos : Int64) (s : Symbol) : (t.write pos s).size = t.size := by
  simp [size, write]

/-- A write is read at all positions of its cell, and nowhere else. -/
theorem read_write (q : Int64) (s : Symbol) (p : Int64) :
    (t.write q s).read p = if q.toInt ≡ p.toInt [ZMOD t.size] then s else t.read p := by
  have hcell : (t.write q s).cellOf p = t.cellOf p := by
    unfold cellOf
    simp [write]
  simp only [read, hcell, ← cellOf_eq_iff]
  simp only [write, Array.getElem_set]

/-- The tape after writes at positions, one after another. -/
def writeAll (writes : List (Int64 × Symbol)) : Tape := writes.foldl (fun t w => t.write w.1 w.2) t

/-- The symbol of the last write to a position that is congruent to `pos`. -/
def lastWrite? (writes : List (Int64 × Symbol)) (pos : Int64) : Option Symbol :=
  (writes.reverse.find? fun w => w.1.toInt ≡ pos.toInt [ZMOD t.size]).map Prod.snd

theorem writeAll_concat (writes : List (Int64 × Symbol)) (w : Int64 × Symbol) :
    t.writeAll (writes ++ [w]) = (t.writeAll writes).write w.1 w.2 := List.foldl_append

@[simp] theorem size_writeAll (writes : List (Int64 × Symbol)) : (t.writeAll writes).size = t.size := by
  induction writes using List.reverseRecOn with
  | nil => rfl
  | append_singleton writes w ih => rw [writeAll_concat, size_write, ih]

theorem lastWrite?_concat (writes : List (Int64 × Symbol)) (w : Int64 × Symbol) (pos : Int64) :
    t.lastWrite? (writes ++ [w]) pos =
      if w.1.toInt ≡ pos.toInt [ZMOD t.size] then some w.2 else t.lastWrite? writes pos := by
  unfold lastWrite?
  rw [List.reverse_append, List.reverse_singleton, List.singleton_append, List.find?_cons]
  by_cases h : w.1.toInt ≡ pos.toInt [ZMOD t.size] <;> simp [h]

/-- The last write wins, also if it was made at another position of the cell. -/
theorem read_writeAll (writes : List (Int64 × Symbol)) (pos : Int64) :
    (t.writeAll writes).read pos = (t.lastWrite? writes pos).getD (t.read pos) := by
  induction writes using List.reverseRecOn with
  | nil => rfl
  | append_singleton writes w ih =>
    rw [writeAll_concat, read_write, size_writeAll, lastWrite?_concat]
    split
    · rfl
    · exact ih

/-! ## Moves -/

/-- The head is back where it was; cells are not touched by moves. -/
theorem shift_shift {a b : Int8} (h : a.toInt + b.toInt = 0) : (t.shift a).shift b = t := by
  have hhead : ((t.shift a).shift b).head = t.head := by
    have hlt : (t.head : ℤ) < t.size := Int.ofNat_lt.2 t.head_lt
    rw [← Int.natCast_inj, head_shift_emod, head_shift_emod, size_shift, Int.emod_add_emod, add_assoc, h,
      add_zero]
    exact Int.emod_eq_of_lt (Int.natCast_nonneg _) hlt
  obtain ⟨cells, head, hsize, hlt⟩ := t
  simp only [shift, setHead] at hhead ⊢
  simp only [hhead]

/-- Positions are exact. On a tape of any size, for every 64-bit position: the remainder that takes the sign of
the position, its sum with the size and the second remainder are computed without overflow and give the
Euclidean remainder; so is the sum of the head with any 8-bit offset. Hence the tape is a periodic map: what is
read at a position after any writes is the symbol of the last write to a congruent position, or what was in the
cell at first. The head is set to the cell that is read at the position, and the two moves undo each other. -/
theorem addressing_exact :
    (1 ≤ t.size ∧ t.size ≤ 1048576) ∧
    (∀ pos : Int64,
      let size := Int64.ofNat t.size
      size.toInt = t.size ∧
      (pos % size).toInt = pos.toInt.tmod t.size ∧
      (pos % size + size).toInt = (pos % size).toInt + size.toInt ∧
      ((pos % size + size) % size).toInt = pos.toInt % t.size ∧
      (t.cellOf pos : ℤ) = pos.toInt % t.size) ∧
    (∀ offset : Int8,
      (Int64.ofNat t.head + offset.toInt64).toInt = t.head + offset.toInt ∧
      ((t.shift offset).head : ℤ) = (t.head + offset.toInt) % t.size) ∧
    (∀ writes pos,
      (t.writeAll writes).read pos =
        (t.lastWrite? writes pos).getD (t.cell (pos.toInt % t.size).toNat)) ∧
    (∀ pos, ((t.setHead pos).head : ℤ) = pos.toInt % t.size ∧ (t.setHead pos).current = t.read pos) ∧
    (t.shift Move.left.offset).shift Move.right.offset = t ∧
    (t.shift Move.right.offset).shift Move.left.offset = t := by
  have hpos : 0 < t.size := t.size_pos
  have hmax : t.size ≤ maxTapeSize := t.size_le
  refine ⟨⟨hpos, hmax⟩, fun pos => ⟨Ring.toInt_size hmax, Ring.toInt_rem hmax pos, ?_,
    Ring.toInt_rem_add_rem hpos hmax pos, t.toInt_cellOf pos⟩,
    fun offset => ⟨t.toInt_head_add offset, t.head_shift_emod offset⟩, fun writes pos => ?_,
    fun pos => ⟨t.toInt_cellOf pos, t.current_setHead pos⟩, t.shift_shift rfl, t.shift_shift rfl⟩
  · rw [Ring.toInt_rem hmax, Ring.toInt_size hmax]
    exact Ring.toInt_rem_add hpos hmax pos
  · rw [read_writeAll, read_eq_cell]

/-- The least position, on three cells and on a single one, and a multiple of the size. -/
example : (Ring.cellOf 3 Int64.minValue, Ring.cellOf 1 Int64.minValue, Ring.cellOf 3 (-6)) = (1, 0, 0) := by
  decide

end LogicMill.Tape
