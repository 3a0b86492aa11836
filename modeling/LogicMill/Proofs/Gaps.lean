import LogicMill.Proofs.Rotation
import Mathlib.Order.Bounds.Basic

/-! # Which gap the ring is cut at

Of several longest runs of blanks the walk takes the one that ends just left of cell 0, and if there is
none, the first that it has met.

* `Tape.GapBefore`: a run of blanks that ends just before a cell.
* `Tape.Met`: such a run, met on a walk from a given cell.
* `Tape.Cut.Chosen`: what a walk knows of the runs that it has passed. `Tape.Cut.Chosen.blank` and
  `Tape.Cut.Chosen.close` are its steps, `Tape.Cut.Chosen.walk` is the whole walk.
* `Tape.Cuts`: where a ring with blanks and other symbols is cut; `Tape.cuts_cut` says that the walk
  cuts it there.
* `Tape.render_cuts`: what is rendered of any ring.
-/

namespace LogicMill.Tape
set_option autoImplicit false

variable {t : Tape} {first j k q len count edge start gap : ℕ} {c : Cut}

/-! ## Runs of blanks and where they end -/

/-- A run of `len` blanks ends just before cell `k`, going around. -/
def GapBefore (t : Tape) (k len : ℕ) : Prop := ∃ q, (q + len) % t.size = k % t.size ∧ t.BlankRun q len

/-- A walk from cell `first` has passed a run of `len` blanks when it comes to `q`, which is not blank. -/
structure Met (t : Tape) (first q len : ℕ) : Prop where
  within : first + len ≤ q
  blank : t.BlankRun (q - len) len
  stops : t.cell q ≠ Symbol.blank

theorem Met.gapBefore (h : t.Met first q len) : t.GapBefore q len := by
  have hwithin := h.within
  exact ⟨q - len, by rw [Nat.sub_add_cancel (by omega)], h.blank⟩

/-- Every longest run is met on one walk around the ring from a cell that is not blank. -/
theorem GapBefore.exists_met (h : t.GapBefore k len) (hfirst : t.cell first ≠ Symbol.blank)
    (hlongest : ∀ j l, t.BlankRun j l → l ≤ len) :
    ∃ q, q ≤ first + t.size ∧ q % t.size = k % t.size ∧ t.Met first q len := by
  obtain ⟨j, hend, hrun⟩ := h
  obtain ⟨r, hr, hmod⟩ := t.exists_offset first j
  have hrun' := hrun.congr hmod
  have hfit : first + r + len ≤ first + t.size := by
    by_contra hover
    apply hfirst
    rw [← cell_congr (Nat.add_mod_right first t.size)]
    exact hrun'.cell_eq (by omega) (by omega)
  refine ⟨first + r + len, hfit, ?_, by omega, ?_, ?_⟩
  · rw [← hend]
    exact Nat.ModEq.add_right len hmod
  · rwa [Nat.add_sub_cancel]
  · intro hblank
    exact absurd (hlongest _ _ (hrun'.extend hblank)) (Nat.not_succ_le_self len)

/-- Cells of one walk around the ring from the cell after `first` are different. -/
theorem eq_of_mod_eq {n i j : ℕ} (hi : 0 < i ∧ i ≤ n) (hj : 0 < j ∧ j ≤ n)
    (h : (first + i) % n = (first + j) % n) : i = j := by
  obtain ⟨a, rfl⟩ := Nat.exists_eq_succ_of_ne_zero hi.1.ne'
  obtain ⟨b, rfl⟩ := Nat.exists_eq_succ_of_ne_zero hj.1.ne'
  have hmod : a ≡ b [MOD n] :=
    Nat.ModEq.add_right_cancel' 1 (Nat.ModEq.add_left_cancel' first h)
  rw [hmod.eq_of_lt_of_lt hi.2 hj.2]

/-! ## The walk -/

namespace Cut

/-- What a walk that started at `first` and has come to `k` knows of the runs that it has passed: none is
longer than the one it has chosen, and if that one does not end at cell 0, no other of its length does, and
it is the first of its length. -/
structure Chosen (t : Tape) (first k : ℕ) (c : Cut) : Prop where
  passed : ∀ q < k, ∀ len, t.Met first q len → len ≤ c.gap
  chosen : c.gap = 0 ∨ ∃ s < k, t.Met first s c.gap ∧ c.start = s % t.size ∧
    (s % t.size = 0 ∨ ∀ q < k, t.Met first q c.gap → q % t.size ≠ 0 ∧ s ≤ q)

theorem chosen_start (t : Tape) (first : ℕ) : Chosen t first first ⟨0, 0, 0⟩ := by
  refine ⟨fun q hq len hmet => ?_, .inl rfl⟩
  have hwithin := hmet.within
  dsimp only
  omega

/-- A blank cell ends no run. -/
theorem Chosen.blank (h : c.Chosen t first k) (hk : t.cell k = Symbol.blank) :
    Chosen t first (k + 1) { c with run := c.run + 1 } := by
  have hbefore : ∀ q < k + 1, ∀ len, t.Met first q len → q < k := by
    intro q hq len hmet
    rcases Nat.lt_succ_iff_lt_or_eq.1 hq with hlt | rfl
    · exact hlt
    · exact absurd hk hmet.stops
  refine ⟨fun q hq len hmet => h.passed q (hbefore q hq len hmet) len hmet, ?_⟩
  rcases h.chosen with hgap | ⟨s, hs, hmet, hstart, htie⟩
  · exact .inl hgap
  · refine .inr ⟨s, Nat.lt_succ_of_lt hs, hmet, hstart, htie.imp_right fun htie q hq hmet' => ?_⟩
    exact htie q (hbefore q hq _ hmet') hmet'

/-- Which run is chosen when one ends at `pos`. -/
theorem close_choice (c : Cut) (pos : ℕ) :
    (c.gap < c.run ∨ c.gap = c.run ∧ 0 < c.run ∧ pos = 0) ∧ c.close pos = ⟨pos, c.run, 0⟩ ∨
      (c.run < c.gap ∨ c.gap = c.run ∧ (c.run = 0 ∨ pos ≠ 0)) ∧ c.close pos = ⟨c.start, c.gap, 0⟩ := by
  rw [close]
  split
  · next h =>
    simp only [gt_iff_lt, Bool.or_eq_true, decide_eq_true_eq, Bool.and_eq_true, beq_iff_eq] at h
    exact .inl ⟨by omega, rfl⟩
  · next h =>
    simp only [gt_iff_lt, Bool.or_eq_true, decide_eq_true_eq, Bool.and_eq_true, beq_iff_eq] at h
    exact .inr ⟨by omega, rfl⟩

/-- A cell that is not blank ends the run that the walk is in. -/
theorem Holds.met (h : c.Holds t first k) (hk : t.cell k ≠ Symbol.blank) : t.Met first k c.run := by
  obtain ⟨q, hq, hrun, hblank⟩ := h.run_blank
  refine ⟨by omega, ?_, hk⟩
  rwa [← hrun, Nat.add_sub_cancel]

theorem Holds.met_le (h : c.Holds t first k) (hmet : t.Met first k len) : len ≤ c.run := by
  have hwithin := hmet.within
  exact h.run_max (k - len) len (by omega) (by omega) hmet.blank

theorem Chosen.close (h : c.Chosen t first k) (hholds : c.Holds t first k)
    (hk : t.cell k ≠ Symbol.blank) : Chosen t first (k + 1) (c.close (k % t.size)) := by
  have hpassed : ∀ q < k + 1, ∀ len, t.Met first q len → len ≤ (c.close (k % t.size)).gap := by
    intro q hq len hmet
    rw [gap_close]
    rcases Nat.lt_succ_iff_lt_or_eq.1 hq with hlt | rfl
    · exact Nat.le_trans (h.passed q hlt len hmet) (Nat.le_max_left _ _)
    · exact Nat.le_trans (hholds.met_le hmet) (Nat.le_max_right _ _)
  refine ⟨hpassed, ?_⟩
  rcases c.close_choice (k % t.size) with ⟨hbetter, hclose⟩ | ⟨hworse, hclose⟩
  · -- The run that ends here is chosen: it is longer than all before it, or it ends at cell 0.
    rw [hclose]
    refine .inr ⟨k, Nat.lt_succ_self k, hholds.met hk, rfl, ?_⟩
    rcases hbetter with hlonger | ⟨-, -, hzero⟩
    · by_cases hzero : k % t.size = 0
      · exact .inl hzero
      · refine .inr fun q hq hmet => ?_
        rcases Nat.lt_succ_iff_lt_or_eq.1 hq with hlt | rfl
        · exact absurd (h.passed q hlt _ hmet) (Nat.not_le_of_lt hlonger)
        · exact ⟨hzero, Nat.le_refl q⟩
    · exact .inl hzero
  · -- It is not chosen: if it is as long as the one that is, it does not end at cell 0.
    rw [hclose]
    rcases Nat.eq_zero_or_pos c.gap with hgap | hgap
    · exact .inl hgap
    · obtain ⟨s, hs, hmet, hstart, htie⟩ := h.chosen.resolve_left hgap.ne'
      refine .inr ⟨s, Nat.lt_succ_of_lt hs, hmet, hstart, htie.imp_right fun htie q hq hmet' => ?_⟩
      rcases Nat.lt_succ_iff_lt_or_eq.1 hq with hlt | rfl
      · exact htie q hlt hmet'
      · have hle : c.gap ≤ c.run := hholds.met_le hmet'
        have hzero : q % t.size ≠ 0 := by omega
        exact ⟨hzero, hs.le⟩

theorem Chosen.walk (h : c.Chosen t first k) (hholds : c.Holds t first k)
    (hend : t.cell (k + count) ≠ Symbol.blank) :
    Chosen t first (k + count + 1) (t.cutFrom count k c) := by
  induction count generalizing k c with
  | zero => exact h.close hholds hend
  | succ count ih =>
    have hshift : k + (count + 1) = k + 1 + count := by omega
    rw [hshift] at hend ⊢
    rw [cutFrom]
    split
    · next hk =>
      have hblank : t.cell k = Symbol.blank := by simpa using hk
      exact ih (h.blank hblank) (hholds.blank hblank) hend
    · next hk =>
      have hblank : t.cell k ≠ Symbol.blank := by simpa using hk
      exact ih (h.close hholds hblank) (hholds.close hblank) hend

end Cut

/-! ## The cut -/

/-- Where a ring is cut: the `gap` cells before `start` are left out. They are a longest run of blanks,
whole. It ends just left of cell 0 if such a run does, and otherwise it is the first that is met on a walk
from the first edge of the ring. -/
structure Cuts (t : Tape) (start gap : ℕ) : Prop where
  gap_pos : 0 < gap
  gap_lt : gap < t.size
  start_lt : start < t.size
  first_cell : t.cell start ≠ Symbol.blank
  last_cell : t.cell (start + (t.size - gap - 1)) ≠ Symbol.blank
  left_out : t.BlankRun (start + (t.size - gap)) gap
  longest : ∀ k len, t.BlankRun k len → len ≤ gap
  at_zero : t.GapBefore 0 gap → start = 0
  first_met : ¬ t.GapBefore 0 gap → ∃ edge d, IsLeast {k | t.isEdge k} edge ∧ 0 < d ∧ d ≤ t.size ∧
    (edge + 1 + d) % t.size = start ∧ ∀ i, 0 < i → i < d → ¬ t.GapBefore (edge + 1 + i) gap

theorem isLeast_of_edgeFrom? (h : t.edgeFrom? count k = some edge) :
    IsLeast {j | k ≤ j ∧ t.isEdge j} edge := by
  induction count generalizing k with
  | zero => cases h
  | succ count ih =>
    rw [edgeFrom?] at h
    split at h
    · next hk =>
      cases h
      exact ⟨⟨Nat.le_refl edge, hk⟩, fun j hj => hj.1⟩
    · next hk =>
      obtain ⟨⟨hle, hedge⟩, hleast⟩ := ih h
      refine ⟨⟨Nat.le_of_succ_le hle, hedge⟩, fun j hj => ?_⟩
      rcases Nat.lt_or_eq_of_le hj.1 with hlt | rfl
      · exact hleast ⟨hlt, hj.2⟩
      · exact absurd hj.2 hk

theorem isLeast_of_edge? (h : t.edge? = some edge) : IsLeast {k | t.isEdge k} edge := by
  have hleast := isLeast_of_edgeFrom? h
  simpa using hleast

namespace Cut.Longest

variable (h : c.Longest t)

include h

theorem start_cell : t.cell c.start ≠ Symbol.blank := by
  obtain ⟨q, hstart, hcell, -⟩ := h.gap_blank
  rwa [hstart, cell_mod]

theorem start_lt : c.start < t.size := by
  obtain ⟨q, hstart, -⟩ := h.gap_blank
  rw [hstart]
  exact Nat.mod_lt _ t.size_pos

theorem gap_lt : c.gap < t.size := by
  obtain ⟨q, -, hcell, hblank⟩ := h.gap_blank
  by_contra hle
  apply hcell
  have hmod : (q + c.gap - t.size) % t.size = (q + c.gap) % t.size := by
    rw [← Nat.add_mod_right (q + c.gap - t.size), Nat.sub_add_cancel (by omega)]
  have hpos : 0 < t.size := t.size_pos
  rw [← cell_congr hmod]
  exact hblank.cell_eq (by omega) (by omega)

theorem left_out : t.BlankRun (c.start + (t.size - c.gap)) c.gap := by
  obtain ⟨q, hstart, -, hblank⟩ := h.gap_blank
  have hgap := h.gap_lt
  refine hblank.congr ?_
  rw [hstart, Nat.mod_add_mod, Nat.add_assoc, Nat.add_sub_cancel' hgap.le, Nat.add_mod_right]

theorem last_cell : t.cell (c.start + (t.size - c.gap - 1)) ≠ Symbol.blank := by
  intro hblank
  have hgap := h.gap_lt
  have hrun : t.BlankRun (c.start + (t.size - c.gap - 1)) (c.gap + 1) := by
    intro i hi
    cases i with
    | zero => exact hblank
    | succ i => exact h.left_out.cell_eq (by omega) (by omega)
  exact absurd (h.gap_max _ _ hrun) (Nat.not_succ_le_self _)

end Cut.Longest

/-- The walk from the first edge cuts the ring where it is to be cut. -/
theorem cuts_cut (h : t.edge? = some edge) : t.Cuts (t.cut edge).start (t.cut edge).gap := by
  have hleast := isLeast_of_edge? h
  have hedge : t.isEdge edge := hleast.1
  have hfirst : t.cell (edge + 1) ≠ Symbol.blank := (isEdge_iff.1 hedge).2
  have hlongest := longest_cut hedge
  have hend : t.cell (edge + 1 + t.cells.size) ≠ Symbol.blank := by
    rwa [cell_congr (Nat.add_mod_right (edge + 1) t.cells.size)]
  have hwalk : (t.cut edge).Chosen t (edge + 1) (edge + 1 + t.size + 1) :=
    (Cut.chosen_start t (edge + 1)).walk (Cut.holds_start t (edge + 1)) hend
  obtain ⟨s, hs, hmet, hstart, htie⟩ := hwalk.chosen.resolve_left hlongest.gap_pos.ne'
  have hwithin := hmet.within
  have hgap := hlongest.gap_pos
  refine ⟨hgap, hlongest.gap_lt, hlongest.start_lt, hlongest.start_cell, hlongest.last_cell,
    hlongest.left_out, hlongest.gap_max, fun hzero => ?_, fun hzero => ?_⟩
  · obtain ⟨q, hq, hmod, hmet'⟩ := hzero.exists_met hfirst hlongest.gap_max
    rw [Nat.zero_mod] at hmod
    rcases htie with htie | htie
    · rw [hstart, htie]
    · exact absurd hmod (htie q (Nat.lt_succ_of_le hq) hmet').1
  · have hne : s % t.size ≠ 0 := by
      intro hs0
      obtain ⟨q, hmod, hrun⟩ := hmet.gapBefore
      exact hzero ⟨q, by rw [hmod, hs0, Nat.zero_mod], hrun⟩
    have hmin := htie.resolve_left hne
    have hd : edge + 1 + (s - (edge + 1)) = s := Nat.add_sub_cancel' (by omega)
    refine ⟨edge, s - (edge + 1), hleast, by omega, by omega, by rw [hd, hstart], fun i hi hlt hgap' => ?_⟩
    obtain ⟨q, hq, hmod, hmet'⟩ := hgap'.exists_met hfirst hlongest.gap_max
    have hwithin' := hmet'.within
    have hq' : edge + 1 + (q - (edge + 1)) = q := Nat.add_sub_cancel' (by omega)
    rw [← hq'] at hmod
    have hi' := eq_of_mod_eq (by omega) (by omega) hmod
    have hle := (hmin q (Nat.lt_succ_of_le hq) hmet').2
    omega

namespace Cuts

variable (h : t.Cuts start gap)

include h

/-- Every cell that is not blank is one of those that are kept, and only one. -/
theorem existsUnique (hk : t.cell k ≠ Symbol.blank) (hlt : k < t.size) :
    ∃! i, i < t.size - gap ∧ (start + i) % t.size = k := by
  obtain ⟨r, hr, hmod⟩ := t.exists_offset start k
  rw [Nat.mod_eq_of_lt hlt] at hmod
  refine ⟨r, ⟨?_, hmod⟩, fun i hi => ?_⟩
  · by_contra hout
    apply hk
    rw [← hmod, cell_mod]
    exact h.left_out.cell_eq (by omega) (by omega)
  · refine Nat.ModEq.eq_of_lt_of_lt ?_ (Nat.lt_of_lt_of_le hi.1 (Nat.sub_le _ _)) hr
    exact Nat.ModEq.add_left_cancel' start (hi.2.trans hmod.symm)

end Cuts

/-! ## What is rendered -/

theorem render_of_edge (h : t.edge? = some edge) :
    t.render = t.slice (t.cut edge).start (t.size - (t.cut edge).gap) := by
  rw [render, h]
  rfl

/-- Without an edge, a blank is followed by blanks all around the ring. -/
theorem blank_of_edge?_eq_none (h : t.edge? = none) (hj : t.cell j = Symbol.blank) (k : ℕ) :
    t.cell k = Symbol.blank := by
  have hrun : ∀ len, t.BlankRun j len := by
    intro len
    induction len with
    | zero => exact .zero t j
    | succ len ih =>
      refine ih.extend ?_
      cases len with
      | zero => exact hj
      | succ len =>
        by_contra hne
        exact not_isEdge_of_edge? h (j + len) (isEdge_iff.2 ⟨ih len (Nat.lt_succ_self len), hne⟩)
  obtain ⟨r, -, hmod⟩ := t.exists_offset j k
  rw [← cell_congr hmod]
  exact hrun (r + 1) r (Nat.lt_succ_self r)

theorem render_of_not_blank (h : ∀ k, t.cell k ≠ Symbol.blank) : t.render = t.cells.toList := by
  rw [render]
  cases hedge : t.edge? with
  | none => rw [if_neg (by simpa using h 0)]
  | some edge => exact absurd (isEdge_iff.1 (isEdge_of_edgeFrom? hedge)).1 (h edge)

/-- A ring with blanks and other symbols is cut, and what it holds is rendered from one side of the cut to
the other. -/
theorem exists_cuts (hblank : t.cell j = Symbol.blank) (hother : t.cell k ≠ Symbol.blank) :
    ∃ start gap, t.Cuts start gap ∧ t.render = t.slice start (t.size - gap) := by
  cases hedge : t.edge? with
  | none => exact absurd (blank_of_edge?_eq_none hedge hblank k) hother
  | some edge => exact ⟨_, _, cuts_cut hedge, render_of_edge hedge⟩

theorem getElem?_slice_cells (h : j < count) : (t.slice k count)[j]? = t.cells[(k + j) % t.size]? := by
  rw [getElem?_slice h, getElem?_cells (Nat.mod_lt _ t.size_pos), cell_mod]

/-- Nothing is rendered of a blank ring, and a ring without blanks is rendered from cell 0 on. Any other
ring is cut at a longest run of blanks. All cells but those of the run are rendered, from the one after it
on and in the order of the ring, so that every cell that is not blank is rendered once. -/
theorem render_cuts (t : Tape) :
    ((∀ k < t.size, t.cell k = Symbol.blank) → t.render = []) ∧
    ((∀ k < t.size, t.cell k ≠ Symbol.blank) → t.render = t.cells.toList) ∧
    ((∃ k < t.size, t.cell k = Symbol.blank) → (∃ k < t.size, t.cell k ≠ Symbol.blank) →
      ∃ start gap, t.Cuts start gap ∧ t.render = t.slice start (t.size - gap) ∧
        t.render.length = t.size - gap ∧
        (∀ i < t.size - gap, t.render[i]? = t.cells[(start + i) % t.size]?) ∧
        ∀ k < t.size, t.cell k ≠ Symbol.blank → ∃! i, i < t.size - gap ∧ (start + i) % t.size = k) := by
  refine ⟨fun h => render_of_blank fun k => ?_, fun h => render_of_not_blank fun k => ?_, ?_⟩
  · rw [← cell_mod]
    exact h _ (Nat.mod_lt k t.size_pos)
  · rw [← cell_mod]
    exact h _ (Nat.mod_lt k t.size_pos)
  · rintro ⟨j, -, hblank⟩ ⟨k, -, hother⟩
    obtain ⟨start, gap, hcuts, hrender⟩ := exists_cuts hblank hother
    refine ⟨start, gap, hcuts, hrender, ?_, fun i hi => ?_, fun k hk hcell => hcuts.existsUnique hcell hk⟩
    · rw [hrender, length_slice]
    · rw [hrender, getElem?_slice_cells hi]

end LogicMill.Tape
