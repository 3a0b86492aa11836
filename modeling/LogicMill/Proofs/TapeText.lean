import LogicMill.Proofs.FirstLine
import LogicMill.Proofs.Mending
import LogicMill.Proofs.NormalForm
import LogicMill.Proofs.Relisting

/-! # Tapes in writing are read back

What is written of a tape is one character for each symbol of its content. Read as tape text, with the
underscore for the blank, it gives these symbols again, unless one of them is shown by a character that
stands for another symbol or that ends the line.

* `Symbol.Showable`, `Symbol.Showable.ofTapeChar_shown`: the symbols that are read back.
* `Text.firstLine_encode`: the texts that are a line without a line end.
* `Tape.readLine_text`: the content of a tape is read back from what is written of it.
-/

namespace LogicMill
set_option autoImplicit false

/-! ## Characters for symbols -/

namespace Symbol

theorem shown_ofChar {c : Char} (h : ofChar c ≠ blank) : (ofChar c).shown = c := by
  rw [shown, if_neg h, char?_ofChar, Option.getD_some]

/-- The blank, and the characters other than the underscore, which shows the blank, and the line feed,
which ends the text. -/
def Showable (s : Symbol) : Prop := s = blank ∨ ∃ c : Char, s = ofChar c ∧ c ≠ '_' ∧ c ≠ '\n'

theorem Showable.ofTapeChar_shown {s : Symbol} (h : s.Showable) : ofTapeChar true s.shown = s := by
  by_cases hblank : s = blank
  · subst hblank
    rfl
  · obtain ⟨c, rfl, hunderscore, -⟩ := h.resolve_left hblank
    rw [shown_ofChar hblank]
    simp [ofTapeChar, hunderscore]

theorem Showable.text_eq {s : Symbol} (h : s.Showable) : s.text = String.utf8EncodeChar s.shown := by
  by_cases hblank : s = blank
  · subst hblank
    decide
  · obtain ⟨c, rfl, -, -⟩ := h.resolve_left hblank
    rw [shown_ofChar hblank, text, if_neg hblank, char?_ofChar]

theorem Showable.shown_ne_feed {s : Symbol} (h : s.Showable) : s.shown ≠ '\n' := by
  by_cases hblank : s = blank
  · subst hblank
    decide
  · obtain ⟨c, rfl, -, hfeed⟩ := h.resolve_left hblank
    rwa [shown_ofChar hblank]

end Symbol

/-! ## Lines -/

namespace Text

theorem firstLine_of_noEnd {line : Bytes} (hfeed : 0x0A ∉ line) (hlast : line.getLast? ≠ some 0x0D) :
    firstLine line = line := by
  have hall : ∀ b ∈ line, (b != 0x0A) = true := fun b hb => bne_iff_ne.2 (ne_of_mem_of_not_mem hb hfeed)
  rw [firstLine, List.takeWhile_eq_self_iff.2 hall, dropReturn_of_ne hlast]

theorem firstLine_encode {chars : List Char} (hfeed : '\n' ∉ chars) (hlast : chars.getLast? ≠ some '\r') :
    firstLine (Utf8.encode chars) = Utf8.encode chars := by
  refine firstLine_of_noEnd ?_ fun h => hlast (Utf8.getLast?_of_encode (by decide) h)
  rw [← List.count_eq_zero, Utf8.count_lineFeed_encode, List.count_eq_zero]
  exact hfeed

end Text

theorem Utf8.chars_encode (chars : List Char) : Utf8.chars (Utf8.encode chars) = chars := by
  rw [Utf8.chars, Utf8.decode_encode, List.map_map]
  exact List.map_id chars

/-! ## Tapes -/

namespace Tape

theorem mem_cells_of_mem_render {t : Tape} {s : Symbol} (h : s ∈ t.render) : s ∈ t.cells := by
  unfold render at h
  split at h
  · split at h
    · cases h
    · simpa using h
  · obtain ⟨k, -, rfl⟩ := List.mem_map.1 h
    exact Array.getElem_mem _

theorem text_of_showable {t : Tape} (h : ∀ s ∈ t.render, s.Showable) :
    t.text = Utf8.encode (t.render.map Symbol.shown) := by
  rw [text, Utf8.encode, List.flatMap_map]
  exact List.flatMap_congr fun s hs => (h s hs).text_eq

/-- A tape that is seeded with what is rendered of another one of its size is rendered like that. -/
theorem Seeded.render_eq {t u : Tape} (h : u.Seeded t.render) (hsize : u.size = t.size) :
    u.render = t.render := by
  rcases t.normal_render with hnil | hnormal
  · rw [hnil] at h ⊢
    exact h.render_nil
  · exact (hsize ▸ hnormal : Normal u.size t.render).render_eq h

theorem length_render_le (t : Tape) : t.render.length ≤ t.size := by
  rcases t.normal_render with hnil | hnormal
  · rw [hnil]
    exact Nat.zero_le _
  · exact hnormal.length_le

/-- What is written of a tape is read back as its content, if all cells hold symbols that can be shown and
the content does not end in a carriage return. A tape of the same size that is seeded with it is written
in the same way. -/
theorem readLine_text {t : Tape} (hcells : ∀ s ∈ t.cells, s.Showable)
    (hlast : t.render.getLast? ≠ some (.ofChar '\r')) :
    Symbol.readLine true t.text = t.render ∧
      ∀ t' : Tape, t'.size = t.size →
        ∃ u, t'.seed (Symbol.readLine true t.text) = .ok u ∧ u.text = t.text := by
  have hshowable (s : Symbol) (hs : s ∈ t.render) : s.Showable := hcells s (mem_cells_of_mem_render hs)
  have hfeed : '\n' ∉ t.render.map Symbol.shown := by
    intro hmem
    obtain ⟨s, hs, hshown⟩ := List.mem_map.1 hmem
    exact (hshowable s hs).shown_ne_feed hshown
  have hreturn : (t.render.map Symbol.shown).getLast? ≠ some '\r' := by
    rw [List.getLast?_map]
    intro hshown
    obtain ⟨s, hs, hshown⟩ := Option.map_eq_some_iff.1 hshown
    -- a symbol that is read back is shown by a carriage return only if it is one
    have hback := (hshowable s (List.mem_of_getLast? hs)).ofTapeChar_shown
    rw [hshown] at hback
    exact hlast (hs.trans (congrArg some hback.symm))
  have hread : Symbol.readLine true t.text = t.render := by
    rw [Symbol.readLine, text_of_showable hshowable, Text.firstLine_encode hfeed hreturn,
      Utf8.chars_encode, List.map_map]
    exact (List.map_congr_left fun s hs => (hshowable s hs).ofTapeChar_shown).trans (List.map_id _)
  refine ⟨hread, fun t' hsize => ?_⟩
  rw [hread]
  obtain ⟨u, hu, husize, hseeded⟩ := t'.exists_seed t.render (hsize ▸ t.length_render_le)
  refine ⟨u, hu, ?_⟩
  rw [text, text, hseeded.render_eq (husize.trans hsize)]

/-- Six cells with the content on both sides of cell 0, and a blank in it. -/
def straddling : Tape where
  cells := #[.ofChar 'a', .ofChar 'b', .blank, .blank, .ofChar 'é', .blank]
  head := 3
  size_le := by decide
  head_lt := by decide

theorem readLine_text_straddling :
    straddling.text = utf8 "é_ab" ∧
      Symbol.readLine true straddling.text = [.ofChar 'é', .blank, .ofChar 'a', .ofChar 'b'] := by
  have hchar (c : Char) (hc : c ≠ '_' ∧ c ≠ '\n') : (Symbol.ofChar c).Showable := .inr ⟨c, rfl, hc⟩
  have hcells : ∀ s ∈ straddling.cells, s.Showable := by
    intro s hs
    simp only [straddling, List.mem_toArray, List.mem_cons, List.not_mem_nil, or_false] at hs
    rcases hs with rfl | rfl | rfl | rfl | rfl | rfl
    exacts [hchar 'a' (by decide), hchar 'b' (by decide), .inl rfl, .inl rfl, hchar 'é' (by decide),
      .inl rfl]
  have htext := (readLine_text hcells (by decide +kernel)).1
  exact ⟨by decide +kernel, htext.trans (by decide +kernel)⟩

end Tape

end LogicMill
