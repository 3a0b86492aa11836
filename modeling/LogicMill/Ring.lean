import LogicMill.Capacity

/-! # Ring addresses

A ring of `n` cells is addressed by any 64-bit integer: positions that differ by a multiple of `n`
name the same cell.

* `Ring.cellOf`: the cell that a position names, computed in 64-bit arithmetic from a remainder
  that takes the sign of the position.
* `Ring.toInt_rem`, `Ring.toInt_rem_add`, `Ring.toInt_rem_add_rem`: each operation on the way is exact.
* `Ring.toInt_cellOf`: it is the remainder of least nonnegative value, for every position.
-/

namespace LogicMill.Ring
set_option autoImplicit false

/-- The cell of a ring of `n` cells that a position names. The remainder of a negative position is
negative or zero, so `n` is added before the remainder is taken once more. -/
def cellOf (n : Nat) (pos : Int64) : Nat :=
  let size := Int64.ofNat n
  ((pos % size + size) % size).toNatClampNeg

theorem toInt_size {n : Nat} (hmax : n ≤ maxTapeSize) : (Int64.ofNat n).toInt = n := by
  have hn : n ≤ 1048576 := hmax
  exact Int64.toInt_ofNat_of_lt (by omega)

theorem toInt_rem {n : Nat} (hmax : n ≤ maxTapeSize) (pos : Int64) :
    (pos % Int64.ofNat n).toInt = pos.toInt.tmod n := by
  rw [Int64.toInt_mod, toInt_size hmax]

/-- The sum on the way does not leave the 64-bit range. -/
theorem toInt_rem_add {n : Nat} (hpos : 0 < n) (hmax : n ≤ maxTapeSize) (pos : Int64) :
    (pos % Int64.ofNat n + Int64.ofNat n).toInt = pos.toInt.tmod n + n := by
  have hn : n ≤ 1048576 := hmax
  have hn0 : (0 : Int) < n := by omega
  have hlow : -(n : Int) < pos.toInt.tmod n := Int.lt_tmod_of_pos pos.toInt hn0
  have hhigh : pos.toInt.tmod n < n := Int.tmod_lt_of_pos pos.toInt hn0
  rw [Int64.toInt_add, toInt_rem hmax, toInt_size hmax]
  exact Int.bmod_eq_of_le (by omega) (by omega)

/-- The second remainder is that of least nonnegative value. -/
theorem toInt_rem_add_rem {n : Nat} (hpos : 0 < n) (hmax : n ≤ maxTapeSize) (pos : Int64) :
    ((pos % Int64.ofNat n + Int64.ofNat n) % Int64.ofNat n).toInt = pos.toInt % n := by
  have hlow : -(n : Int) < pos.toInt.tmod n := Int.lt_tmod_of_pos pos.toInt (by omega)
  have hrem : (pos.toInt.tmod n + n) % (n : Int) = pos.toInt % n := by
    rw [Int.add_emod_right, Int.tmod_def, Int.sub_mul_emod_self_left]
  rw [toInt_rem hmax, toInt_rem_add hpos hmax, Int.tmod_eq_emod_of_nonneg (by omega), hrem]

/-- The cell of a position is its remainder by the size of the ring. -/
theorem toInt_cellOf {n : Nat} (hpos : 0 < n) (hmax : n ≤ maxTapeSize) (pos : Int64) :
    (cellOf n pos : Int) = pos.toInt % n := by
  have hnonneg : 0 ≤ pos.toInt % (n : Int) := Int.emod_nonneg _ (by omega)
  unfold cellOf
  rw [← Int64.toNat_toInt, toInt_rem_add_rem hpos hmax]
  omega

/-- The cell of a position lies on the ring. -/
theorem cellOf_lt {n : Nat} (hpos : 0 < n) (hmax : n ≤ maxTapeSize) (pos : Int64) :
    cellOf n pos < n := by
  have h := toInt_cellOf hpos hmax pos
  have := Int.emod_lt_of_pos pos.toInt (show (0 : Int) < n by omega)
  omega

end LogicMill.Ring
