import LogicMill.Proofs.Gaps
import LogicMill.Proofs.Usage

/-! # Input in normal form

A tape that is seeded holds its input from cell 0 on and blanks after it. If the input has no blank at
either end and no run of blanks longer than what it leaves free, it is rendered as it was given. What is
rendered of any tape is such an input, or nothing.

* `Tape.replicate_infix_slice_iff`: runs of blanks on the ring and in what is read from it.
* `Tape.Normal`: the inputs in question.
* `Tape.Normal.render_eq`, `Tape.normal_render`: they are rendered as they are, and nothing else is.
* `Tape.render_seed`: seeding and rendering are inverse to each other on them.
-/

namespace LogicMill.Tape
set_option autoImplicit false

variable {t u : Tape} {input : List Symbol} {j k l count : ℕ}

/-! ## Slices -/

theorem head?_slice (h : 0 < count) : (t.slice k count).head? = some (t.cell k) := by
  rw [List.head?_eq_getElem?, getElem?_slice h, Nat.add_zero]

theorem getLast?_slice (h : 0 < count) : (t.slice k count).getLast? = some (t.cell (k + (count - 1))) := by
  rw [List.getLast?_eq_getElem?, length_slice, getElem?_slice (by omega)]

theorem replicate_infix_slice_iff :
    List.replicate l Symbol.blank <:+: t.slice k count ↔ ∃ j, j + l ≤ count ∧ t.BlankRun (k + j) l := by
  rw [List.infix_iff_getElem?]
  simp only [List.length_replicate, length_slice, List.getElem_replicate]
  refine exists_congr fun j => ?_
  rw [Nat.add_comm l j]
  refine and_congr_right fun hfit => forall₂_congr fun i hi => ?_
  rw [getElem?_slice (by omega), Option.some_inj, Nat.add_comm i j, Nat.add_assoc]

/-! ## Normal forms -/

/-- An input for a tape of `n` cells with symbols other than the blank at both ends, none of whose runs of
blanks is longer than what it leaves free of the tape. -/
structure Normal (n : ℕ) (input : List Symbol) : Prop where
  ne_nil : input ≠ []
  length_le : input.length ≤ n
  head_ne : input.head? ≠ some Symbol.blank
  last_ne : input.getLast? ≠ some Symbol.blank
  runs_le : ∀ l, List.replicate l Symbol.blank <:+: input → l ≤ n - input.length

/-- The tape holds the input from cell 0 on and blanks after it. -/
structure Seeded (t : Tape) (input : List Symbol) : Prop where
  length_le : input.length ≤ t.size
  slice_eq : t.slice 0 input.length = input
  rest_blank : t.BlankRun input.length (t.size - input.length)

theorem exists_seed (t : Tape) (input : List Symbol) (h : input.length ≤ t.size) :
    ∃ u, t.seed input = .ok u ∧ u.size = t.size ∧ u.Seeded input := by
  obtain ⟨u, hu⟩ : ∃ u, t.seed input = .ok u := ⟨_, dif_pos h⟩
  have hsize := size_seed hu
  obtain ⟨hle, -, hcell⟩ := seed_eq_ok hu
  refine ⟨u, hu, hsize, hle, ?_, fun i hi => ?_⟩
  · refine List.ext_getElem? fun i => ?_
    by_cases hi : i < input.length
    · rw [getElem?_slice hi, Nat.zero_add, hcell i (by omega), List.getD_eq_getElem?_getD,
        List.getElem?_eq_getElem hi, Option.getD_some]
    · rw [List.getElem?_eq_none (by simpa using hi), List.getElem?_eq_none (by simpa using hi)]
  · rw [hcell _ (by omega), List.getD_eq_getElem?_getD, List.getElem?_eq_none (by omega), Option.getD_none]

namespace Normal

theorem render_eq (h : Normal u.size input) (hu : u.Seeded input) : u.render = input := by
  have hpos : 0 < input.length := List.length_pos_iff.2 h.ne_nil
  have hle := hu.length_le
  have hhead : u.cell 0 ≠ Symbol.blank := by
    have hne := h.head_ne
    rw [← hu.slice_eq, head?_slice hpos] at hne
    simpa using hne
  have hlast : u.cell (input.length - 1) ≠ Symbol.blank := by
    have hne := h.last_ne
    rw [← hu.slice_eq, getLast?_slice hpos, Nat.zero_add] at hne
    simpa using hne
  have hinside : ∀ j l, j + l ≤ input.length → u.BlankRun j l → l ≤ u.size - input.length := by
    intro j l hfit hrun
    refine h.runs_le l ?_
    rw [← hu.slice_eq, replicate_infix_slice_iff]
    exact ⟨j, hfit, by rwa [Nat.zero_add]⟩
  rcases Nat.lt_or_eq_of_le hle with hlt | hfull
  · -- The blanks after the input are a longest run, so the ring is cut at cell 0.
    obtain ⟨start, gap, hcuts, hrender⟩ :=
      exists_cuts (hu.rest_blank 0 (by omega)) hhead
    have hge := hcuts.longest _ _ hu.rest_blank
    have hle' : gap ≤ u.size - input.length := by
      obtain ⟨r, hr, hmod⟩ := u.exists_offset 0 (start + (u.size - gap))
      have hrun := hcuts.left_out.congr hmod
      rw [Nat.zero_add] at hrun
      by_cases hin : r + gap ≤ input.length
      · exact hinside r gap hin hrun
      · have hout : input.length ≤ r := by
          by_contra hover
          exact hlast (hrun.cell_eq (by omega) (by omega))
        have hfit : r + gap ≤ u.size := by
          by_contra hover
          apply hhead
          rw [← cell_congr (Nat.add_mod_right 0 u.size)]
          exact hrun.cell_eq (by omega) (by omega)
        omega
    have hgap : gap = u.size - input.length := Nat.le_antisymm hle' hge
    have hzero : start = 0 := by
      refine hcuts.at_zero ⟨input.length, ?_, hgap ▸ hu.rest_blank⟩
      rw [hgap, Nat.add_sub_cancel' hle, Nat.mod_self, Nat.zero_mod]
    rw [hrender, hzero, hgap, Nat.sub_sub_self hle, hu.slice_eq]
  · have hnone : ∀ k, u.cell k ≠ Symbol.blank := by
      intro k hk
      have hrun : u.BlankRun (k % u.size) 1 := by
        intro i hi
        obtain rfl : i = 0 := by omega
        rwa [Nat.add_zero, cell_mod]
      have hlt : k % u.size < u.size := Nat.mod_lt k u.size_pos
      have := hinside (k % u.size) 1 (by omega) hrun
      omega
    rw [render_of_not_blank hnone, ← slice_all, ← hfull, hu.slice_eq]

end Normal

theorem Seeded.render_nil (h : u.Seeded []) : u.render = [] := by
  refine render_of_blank fun k => ?_
  have hlt : k % u.size < u.size := Nat.mod_lt k u.size_pos
  rw [← cell_mod]
  exact h.rest_blank.cell_eq (Nat.zero_le _) (by simpa using hlt)

/-! ## What is rendered is in normal form -/

theorem normal_slice (hpos : 0 < count) (hle : count ≤ t.size) (hfirst : t.cell k ≠ Symbol.blank)
    (hlast : t.cell (k + (count - 1)) ≠ Symbol.blank)
    (hruns : ∀ j l, t.BlankRun j l → l ≤ t.size - count) : Normal t.size (t.slice k count) := by
  refine ⟨?_, ?_, ?_, ?_, fun l hl => ?_⟩
  · rwa [← List.length_pos_iff, length_slice]
  · rwa [length_slice]
  · rw [head?_slice hpos]
    simpa using hfirst
  · rw [getLast?_slice hpos]
    simpa using hlast
  · obtain ⟨j, -, hrun⟩ := replicate_infix_slice_iff.1 hl
    rw [length_slice]
    exact hruns _ _ hrun

theorem Cuts.normal {start gap : ℕ} (h : t.Cuts start gap) :
    Normal t.size (t.slice start (t.size - gap)) := by
  have hlt := h.gap_lt
  refine normal_slice (by omega) (by omega) h.first_cell h.last_cell fun j l hrun => ?_
  rw [Nat.sub_sub_self hlt.le]
  exact h.longest j l hrun

theorem normal_cells (h : ∀ k, t.cell k ≠ Symbol.blank) : Normal t.size t.cells.toList := by
  rw [← slice_all]
  refine normal_slice t.size_pos (Nat.le_refl _) (h _) (h _) fun j l hrun => ?_
  cases l with
  | zero => exact Nat.zero_le _
  | succ l => exact absurd (hrun 0 (Nat.succ_pos l)) (h _)

theorem normal_render (t : Tape) : t.render = [] ∨ Normal t.size t.render := by
  by_cases hblank : ∃ j, t.cell j = Symbol.blank
  · obtain ⟨j, hj⟩ := hblank
    by_cases hother : ∃ k, t.cell k ≠ Symbol.blank
    · obtain ⟨k, hk⟩ := hother
      obtain ⟨start, gap, hcuts, hrender⟩ := exists_cuts hj hk
      exact .inr (hrender ▸ hcuts.normal)
    · push Not at hother
      exact .inl (render_of_blank hother)
  · push Not at hblank
    exact .inr (render_of_not_blank hblank ▸ normal_cells hblank)

/-! ## Seeding and rendering -/

theorem Normal.seed (h : Normal t.size input) : ∃ u, t.seed input = .ok u ∧ u.render = input := by
  obtain ⟨u, hu, hsize, hseeded⟩ := t.exists_seed input h.length_le
  exact ⟨u, hu, (hsize ▸ h).render_eq hseeded⟩

/-- A normal form that is seeded is what is rendered. What is rendered of any tape can be seeded on a tape
of its size, and is then rendered again. -/
theorem render_seed (t : Tape) :
    (∀ input, Normal t.size input → ∃ u, t.seed input = .ok u ∧ u.render = input) ∧
      ∀ t' : Tape, t'.size = t.size → ∃ u, t'.seed t.render = .ok u ∧ u.render = t.render := by
  refine ⟨fun input h => h.seed, fun t' hsize => ?_⟩
  rcases t.normal_render with hnil | h
  · obtain ⟨u, hu, -, hseeded⟩ := t'.exists_seed [] (Nat.zero_le _)
    rw [hnil]
    exact ⟨u, hu, hseeded.render_nil⟩
  · exact (hsize ▸ h : Normal t'.size t.render).seed

/-- On six cells this leaves as many blanks free as it has inside. -/
def gapped : List Symbol := [.ofChar 'a', .blank, .blank, .ofChar 'b']

theorem render_seed_gapped :
    ∃ t u, Tape.new 6 = .ok t ∧ t.seed gapped = .ok u ∧ u.render = gapped := by
  obtain ⟨t, ht⟩ : ∃ t, Tape.new 6 = .ok t := ⟨_, rfl⟩
  have hsize : t.size = 6 := by exact_mod_cast size_new ht
  have hruns : ∀ l < 5, List.replicate l Symbol.blank <:+: gapped → l ≤ 6 - gapped.length := by decide
  have hnormal : Normal t.size gapped := by
    rw [hsize]
    refine ⟨by decide, by decide, by decide, by decide, fun l hl => hruns l ?_ hl⟩
    simpa [gapped, Nat.lt_succ_iff] using hl.length_le
  obtain ⟨u, hu, hrender⟩ := (render_seed t).1 gapped hnormal
  exact ⟨t, u, ht, hu, hrender⟩

end LogicMill.Tape
