import LogicMill.Proofs.RingView

/-! # Cutting the ring

The walk around the ring finds a longest run of blanks, so content that leaves a longer run free than
any it encloses is rendered from its first to its last symbol.

* `Tape.BlankRun`: a number of blanks in a row, going around.
* `Tape.Cut.Holds`: what a walk knows of the cells that it has passed. `Tape.Cut.Holds.blank` and
  `Tape.Cut.Holds.close` are its steps, `Tape.Cut.Holds.walk` is the whole walk.
* `Tape.Cut.Longest`: a cut at the end of a longest run; `Tape.longest_cut` says that the one found is.
* `Tape.Content`: symbols on an otherwise blank tape with the longest run around them;
  `Tape.Content.render_eq` says that exactly these symbols are rendered.
-/

namespace LogicMill.Tape
set_option autoImplicit false

/-! ## Cells around the ring -/

variable {t : Tape} {first j k len count : ℕ} {c : Cut}

theorem cell_congr (h : j % t.size = k % t.size) : t.cell j = t.cell k := by
  rw [← cell_mod, h, cell_mod]

theorem exists_offset (t : Tape) (j k : ℕ) : ∃ r < t.size, (j + r) % t.size = k % t.size := by
  obtain ⟨m, hm⟩ : ∃ m, t.size = m + 1 := Nat.exists_eq_succ_of_ne_zero t.size_pos.ne'
  rw [hm]
  refine ⟨(k + j * m) % (m + 1), Nat.mod_lt _ (Nat.succ_pos m), ?_⟩
  have hsum : j + (k + j * m) = k + j * (m + 1) := by
    rw [Nat.mul_succ]
    omega
  rw [Nat.add_mod_mod, hsum, Nat.add_mul_mod_self_right]

/-- The `len` cells from `k` on are blank. -/
def BlankRun (t : Tape) (k len : ℕ) : Prop := ∀ i < len, t.cell (k + i) = Symbol.blank

namespace BlankRun

theorem zero (t : Tape) (k : ℕ) : t.BlankRun k 0 := fun _ hi => absurd hi (Nat.not_lt_zero _)

theorem shorten {len' : ℕ} (h : t.BlankRun k len) (hle : len' ≤ len) : t.BlankRun k len' :=
  fun i hi => h i (Nat.lt_of_lt_of_le hi hle)

theorem extend (h : t.BlankRun k len) (hcell : t.cell (k + len) = Symbol.blank) :
    t.BlankRun k (len + 1) := by
  intro i hi
  rcases Nat.lt_succ_iff_lt_or_eq.1 hi with hlt | rfl
  · exact h i hlt
  · exact hcell

theorem cell_eq (h : t.BlankRun k len) (hle : k ≤ j) (hlt : j < k + len) :
    t.cell j = Symbol.blank := by
  have hcell := h (j - k) (by omega)
  rwa [Nat.add_sub_cancel' hle] at hcell

theorem congr (h : t.BlankRun k len) (hmod : j % t.size = k % t.size) : t.BlankRun j len := by
  intro i hi
  rw [← h i hi]
  exact cell_congr (Nat.ModEq.add_right i hmod)

end BlankRun

theorem isEdge_iff : t.isEdge k ↔ t.cell k = Symbol.blank ∧ t.cell (k + 1) ≠ Symbol.blank := by
  simp [isEdge]

/-! ## The walk -/

namespace Cut

/-- What a walk that started at `first` and has come to `k` knows: the run of blanks that it is in,
and the longest run that it has passed with the place after it. -/
structure Holds (t : Tape) (first k : ℕ) (c : Cut) : Prop where
  run_blank : ∃ q, first ≤ q ∧ q + c.run = k ∧ t.BlankRun q c.run
  run_max : ∀ j len, first ≤ j → j + len = k → t.BlankRun j len → len ≤ c.run
  gap_max : ∀ j len, first ≤ j → j + len ≤ k → t.BlankRun j len → len ≤ max c.gap c.run
  gap_blank : c.gap = 0 ∨ ∃ q, c.start = (q + c.gap) % t.size ∧
    t.cell (q + c.gap) ≠ Symbol.blank ∧ t.BlankRun q c.gap

theorem holds_start (t : Tape) (first : ℕ) : Holds t first first ⟨0, 0, 0⟩ := by
  refine ⟨⟨first, Nat.le_refl _, rfl, .zero t first⟩, ?_, ?_, .inl rfl⟩
  · intro j len hj hlen _
    dsimp only
    omega
  · intro j len hj hlen _
    dsimp only
    omega

/-- A blank cell makes the run longer. -/
theorem Holds.blank (h : c.Holds t first k) (hk : t.cell k = Symbol.blank) :
    Holds t first (k + 1) { c with run := c.run + 1 } := by
  have hmax : ∀ j len, first ≤ j → j + len = k + 1 → t.BlankRun j len → len ≤ c.run + 1 := by
    intro j len hj hlen hblank
    cases len with
    | zero => exact Nat.zero_le _
    | succ len =>
      exact Nat.succ_le_succ (h.run_max j len hj (by omega) (hblank.shorten (Nat.le_succ _)))
  refine ⟨?_, hmax, ?_, h.gap_blank⟩
  · obtain ⟨q, hq, rfl, hrun⟩ := h.run_blank
    exact ⟨q, hq, rfl, hrun.extend hk⟩
  · intro j len hj hlen hblank
    dsimp only
    rcases Nat.le_succ_iff.1 hlen with hlen | hlen
    · have hpassed := h.gap_max j len hj hlen hblank
      omega
    · have hcurrent := hmax j len hj hlen hblank
      omega

theorem close_cases (c : Cut) (pos : ℕ) :
    c.gap ≤ c.run ∧ c.close pos = ⟨pos, c.run, 0⟩ ∨
      c.run ≤ c.gap ∧ c.close pos = ⟨c.start, c.gap, 0⟩ := by
  rw [close]
  split
  · next h =>
    simp only [gt_iff_lt, Bool.or_eq_true, decide_eq_true_eq, Bool.and_eq_true, beq_iff_eq] at h
    exact .inl ⟨by omega, rfl⟩
  · next h =>
    simp only [gt_iff_lt, Bool.or_eq_true, decide_eq_true_eq, not_or] at h
    exact .inr ⟨by omega, rfl⟩

theorem gap_close (c : Cut) (pos : ℕ) : (c.close pos).gap = max c.gap c.run := by
  rcases c.close_cases pos with ⟨hle, h⟩ | ⟨hle, h⟩
  · rw [h, Nat.max_eq_right hle]
  · rw [h, Nat.max_eq_left hle]

theorem run_close (c : Cut) (pos : ℕ) : (c.close pos).run = 0 := by
  rcases c.close_cases pos with ⟨-, h⟩ | ⟨-, h⟩ <;> rw [h]

/-- A cell that is not blank ends the run. -/
theorem Holds.close (h : c.Holds t first k) (hk : t.cell k ≠ Symbol.blank) :
    Holds t first (k + 1) (c.close (k % t.size)) := by
  obtain ⟨q, hq, hrun, hblank⟩ := h.run_blank
  -- No run of blanks reaches past the cell.
  have hpassed : ∀ j len, j + len ≤ k + 1 → t.BlankRun j len → j + len ≤ k ∨ len = 0 := by
    intro j len hlen hblank
    by_contra hreach
    exact hk (hblank.cell_eq (by omega) (by omega))
  refine ⟨?_, ?_, ?_, ?_⟩
  · rw [run_close]
    exact ⟨k + 1, by omega, rfl, .zero t (k + 1)⟩
  · intro j len hj hlen hblank
    have := hpassed j len (by omega) hblank
    omega
  · intro j len hj hlen hblank
    rw [gap_close, run_close]
    rcases hpassed j len hlen hblank with hlen | rfl
    · exact Nat.le_trans (h.gap_max j len hj hlen hblank) (Nat.le_max_left _ _)
    · exact Nat.zero_le _
  · rcases c.close_cases (k % t.size) with ⟨-, hclose⟩ | ⟨-, hclose⟩
    · rw [hclose]
      exact .inr ⟨q, by rw [hrun], by rwa [hrun], hblank⟩
    · rw [hclose]
      exact h.gap_blank

theorem Holds.walk (h : c.Holds t first k) (hend : t.cell (k + count) ≠ Symbol.blank) :
    Holds t first (k + count + 1) (t.cutFrom count k c) := by
  induction count generalizing k c with
  | zero => exact h.close hend
  | succ count ih =>
    have hshift : k + (count + 1) = k + 1 + count := by omega
    rw [hshift] at hend ⊢
    rw [cutFrom]
    split
    · next hk => exact ih (h.blank (by simpa using hk)) hend
    · next hk => exact ih (h.close (by simpa using hk)) hend

theorem run_cutFrom (t : Tape) (count k : ℕ) (c : Cut) : (t.cutFrom count k c).run = 0 := by
  induction count generalizing k c with
  | zero => exact c.run_close _
  | succ count ih =>
    rw [cutFrom]
    split <;> exact ih _ _

/-- A cut at the end of a run of blanks that is at least as long as any other. -/
structure Longest (t : Tape) (c : Cut) : Prop where
  gap_pos : 0 < c.gap
  gap_blank : ∃ q, c.start = (q + c.gap) % t.size ∧ t.cell (q + c.gap) ≠ Symbol.blank ∧
    t.BlankRun q c.gap
  gap_max : ∀ j len, t.BlankRun j len → len ≤ c.gap

end Cut

/-- The cut found is at the end of a longest run. -/
theorem longest_cut {edge : ℕ} (h : t.isEdge edge) : (t.cut edge).Longest t := by
  obtain ⟨hblank, hnext⟩ := isEdge_iff.1 h
  have hend : t.cell (edge + 1 + t.cells.size) ≠ Symbol.blank := by
    rwa [cell_congr (Nat.add_mod_right (edge + 1) t.cells.size)]
  have hwalk := (Cut.holds_start t (edge + 1)).walk hend
  have hmax : ∀ j len, t.BlankRun j len → len ≤ (t.cut edge).gap := by
    intro j len hrun
    obtain ⟨r, hr, hmod⟩ := t.exists_offset (edge + 1) j
    have hrun' := hrun.congr hmod
    have hend' : edge + 1 + r + len ≤ edge + 1 + t.size := by
      by_contra hreach
      exact hend (hrun'.cell_eq (Nat.add_le_add_left hr.le _) (Nat.lt_of_not_le hreach))
    have hle := hwalk.gap_max _ len (Nat.le_add_right _ r) (Nat.le_succ_of_le hend') hrun'
    rwa [Cut.run_cutFrom, Nat.max_zero] at hle
  have hpos : 0 < (t.cut edge).gap :=
    hmax edge 1 ((BlankRun.zero t edge).extend hblank)
  exact ⟨hpos, hwalk.gap_blank.resolve_left hpos.ne', hmax⟩

/-! ## What is rendered -/

theorem isEdge_of_edgeFrom? {edge : ℕ} (h : t.edgeFrom? count k = some edge) : t.isEdge edge := by
  induction count generalizing k with
  | zero => cases h
  | succ count ih =>
    rw [edgeFrom?] at h
    split at h
    · next hk =>
      cases h
      exact hk
    · exact ih h

theorem not_isEdge_of_edgeFrom? (h : t.edgeFrom? count k = none) :
    ∀ i < count, ¬ t.isEdge (k + i) := by
  induction count generalizing k with
  | zero => exact fun i hi => absurd hi (Nat.not_lt_zero i)
  | succ count ih =>
    rw [edgeFrom?] at h
    split at h
    · cases h
    · next hk =>
      intro i hi
      cases i with
      | zero => exact hk
      | succ i =>
        rw [← Nat.add_assoc, Nat.add_right_comm]
        exact ih h i (Nat.lt_of_succ_lt_succ hi)

theorem not_isEdge_of_edge? (h : t.edge? = none) (k : ℕ) : ¬ t.isEdge k := by
  have hk := not_isEdge_of_edgeFrom? h (k % t.size) (Nat.mod_lt k t.size_pos)
  rw [Nat.zero_add, isEdge_iff, cell_mod] at hk
  rwa [isEdge_iff, ← cell_congr (Nat.mod_add_mod k t.size 1)]

@[simp] theorem length_slice (t : Tape) (k count : ℕ) : (t.slice k count).length = count := by
  simp [slice]

theorem getElem?_slice (h : j < count) : (t.slice k count)[j]? = some (t.cell (k + j)) := by
  simp [slice, h]

theorem slice_congr (h : j % t.size = k % t.size) : t.slice j count = t.slice k count := by
  refine List.map_congr_left fun i _ => ?_
  exact cell_congr (Nat.ModEq.add_right i h)

theorem slice_all (t : Tape) : t.slice 0 t.size = t.cells.toList := by
  refine List.ext_getElem? fun i => ?_
  by_cases hi : i < t.size
  · rw [getElem?_slice hi, Nat.zero_add, Array.getElem?_toList, getElem?_cells hi]
  · rw [List.getElem?_eq_none (by simpa using hi), List.getElem?_eq_none (by simpa [size] using hi)]

/-- A tape that holds `len` symbols from `first` on and is blank otherwise, with no blank at either
end of them and more blanks around them than in any run inside. A full tape has its first symbol in
cell 0. -/
structure Content (t : Tape) (first len : ℕ) : Prop where
  len_pos : 0 < len
  len_le : len ≤ t.size
  first_cell : t.cell first ≠ Symbol.blank
  last_cell : t.cell (first + (len - 1)) ≠ Symbol.blank
  around : t.BlankRun (first + len) (t.size - len)
  inside : ∀ j l, 0 < l → j + l ≤ len → t.BlankRun (first + j) l → l < t.size - len
  full : len < t.size ∨ t.size ∣ first

namespace Content

variable (h : t.Content first len)

include h

theorem cut_eq (hlongest : c.Longest t) :
    c.gap = t.size - len ∧ c.start = first % t.size := by
  obtain ⟨q, hstart, hcell, hblank⟩ := hlongest.gap_blank
  obtain ⟨r, hr, hmod⟩ := t.exists_offset first q
  have hpos := h.len_pos
  have hgap := hlongest.gap_pos
  have haround := hlongest.gap_max _ _ h.around
  have hrun := hblank.congr hmod
  -- The run of the cut lies neither inside the content nor over one of its ends.
  have hout : len ≤ r := by
    by_contra hin
    by_cases hover : r + c.gap ≤ len
    · exact absurd (h.inside r c.gap hgap hover hrun) (Nat.not_lt_of_le haround)
    · exact h.last_cell (hrun.cell_eq (by omega) (by omega))
  have hfit : r + c.gap ≤ t.size := by
    by_contra hover
    apply h.first_cell
    rw [← cell_congr (Nat.add_mod_right first t.size)]
    exact hrun.cell_eq (by omega) (by omega)
  have hle := h.len_le
  have hend : r + c.gap = t.size := by omega
  refine ⟨by omega, ?_⟩
  calc c.start = (q + c.gap) % t.size := hstart
    _ = (first + r + c.gap) % t.size := (Nat.ModEq.add_right c.gap hmod).symm
    _ = first % t.size := by rw [Nat.add_assoc, hend, Nat.add_mod_right]

/-- The content is rendered from its first to its last symbol. -/
theorem render_eq : t.render = t.slice first len := by
  rw [render]
  cases hedge : t.edge? with
  | some edge =>
    obtain ⟨hgap, hstart⟩ := h.cut_eq (longest_cut (isEdge_of_edgeFrom? hedge))
    have hlen : t.cells.size - (t.cut edge).gap = len := by
      rw [hgap]
      exact Nat.sub_sub_self h.len_le
    dsimp only
    rw [hlen, hstart]
    exact slice_congr (Nat.mod_mod first t.size)
  | none =>
    -- Blanks around the content would end in an edge, so the content fills the ring.
    have hfull : len = t.size := by
      by_contra hne
      have hle := h.len_le
      refine not_isEdge_of_edge? hedge (first + (t.size - 1)) (isEdge_iff.2 ⟨?_, ?_⟩)
      · exact h.around.cell_eq (by omega) (by omega)
      · have hone : first + (t.size - 1) + 1 = first + t.size := by
          have := h.len_pos
          omega
        rw [hone, cell_congr (Nat.add_mod_right first t.size)]
        exact h.first_cell
    have hfirst : first % t.size = 0 % t.size := by
      rw [Nat.zero_mod]
      exact Nat.mod_eq_zero_of_dvd (h.full.resolve_left (by omega))
    have hcell : t.cell 0 ≠ Symbol.blank := by
      rw [← cell_congr hfirst]
      exact h.first_cell
    rw [if_neg (by simpa using hcell), hfull, slice_congr hfirst, slice_all]

end Content

end LogicMill.Tape
