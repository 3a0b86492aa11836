import LogicMill.Input
import LogicMill.Proofs.Utf8
import LogicMill.Symbol

/-! # First lines that are cut off twice

A tape text that comes from a file or a stream is cut off at its first line end before it is read as
symbols, and reading it cuts it off once more. The second cut finds no line feed, but it can find a
carriage return.

* `Text.firstLine_firstLine`: what the second cut does.
* `Text.dropReturn_firstLine`: when it does nothing.
* `Symbol.readLine_twice_iff`: the symbols that are read after the first cut and without it.
-/

namespace LogicMill
set_option autoImplicit false

/-! ## Lines -/

namespace Text

theorem dropReturn_concat (line : Bytes) : dropReturn (line ++ [0x0D]) = line := by
  simp [dropReturn]

theorem dropReturn_of_ne {line : Bytes} (h : line.getLast? ≠ some 0x0D) : dropReturn line = line :=
  if_neg h

theorem firstLine_noFeed {text : Bytes} {b : UInt8} (h : b ∈ firstLine text) : (b != 0x0A) = true := by
  have hmem : b ∈ text.takeWhile (· != 0x0A) := by
    unfold firstLine dropReturn at h
    split at h
    · exact List.dropLast_subset _ h
    · exact h
  exact List.mem_takeWhile_imp (p := (· != 0x0A)) hmem

theorem firstLine_firstLine (text : Bytes) :
    firstLine (firstLine text) = dropReturn (firstLine text) := by
  rw [firstLine, List.takeWhile_eq_self_iff.2 fun _ => firstLine_noFeed]

/-- A first line ends in a carriage return only where two of them stood before the line feed. -/
theorem dropReturn_firstLine {text : Bytes} (h : ¬ [0x0D, 0x0D] <:+ text.takeWhile (· != 0x0A)) :
    dropReturn (firstLine text) = firstLine text := by
  apply dropReturn_of_ne
  unfold firstLine
  generalize text.takeWhile (· != 0x0A) = line at h
  rcases List.eq_nil_or_concat line with rfl | ⟨front, b, rfl⟩
  · simp [dropReturn]
  · rw [List.concat_eq_append] at h ⊢
    by_cases hb : b = 0x0D
    · subst hb
      rw [dropReturn_concat]
      intro hlast
      obtain ⟨front', rfl⟩ := List.getLast?_eq_some_iff.1 hlast
      exact h ⟨front', by simp⟩
    · have hne : (front ++ [b]).getLast? ≠ some 0x0D := by simpa using hb
      rwa [dropReturn_of_ne hne]

end Text

/-! ## Symbols -/

/-- A carriage return at the end of a line is a letter of its own, also behind a broken form. -/
theorem Utf8.chars_concat_return (line : Bytes) : chars (line ++ [0x0D]) = chars line ++ ['\r'] := by
  unfold chars
  rw [decode_append_ascii (by decide), List.map_append]
  rfl

namespace Symbol

/-- The first line of a text gives the same symbols as the text exactly if the line does not end in two
carriage returns. If it does, both are dropped on the way through the first line, and only the last of
them from the text itself, where the other one is the last symbol. -/
theorem readLine_twice_iff (underscoreBlank : Bool) (text : Bytes) :
    ∃ line, Input.readLine ⟨text, none⟩ = .ok line ∧
      (readLine underscoreBlank line = readLine underscoreBlank text ↔
        ¬ [0x0D, 0x0D] <:+ text.takeWhile (· != 0x0A)) ∧
      ([0x0D, 0x0D] <:+ text.takeWhile (· != 0x0A) →
        readLine underscoreBlank text = readLine underscoreBlank line ++ [ofChar '\r']) := by
  refine ⟨Text.firstLine text, rfl, ?_⟩
  have htwo (h : [0x0D, 0x0D] <:+ text.takeWhile (· != 0x0A)) :
      readLine underscoreBlank text =
        readLine underscoreBlank (Text.firstLine text) ++ [ofChar '\r'] := by
    obtain ⟨front, hfront⟩ := h
    have hline : Text.firstLine text = front ++ [0x0D] := by
      have hsplit : front ++ [0x0D, 0x0D] = front ++ [0x0D] ++ [0x0D] := by simp
      rw [Text.firstLine, ← hfront, hsplit, Text.dropReturn_concat]
    rw [readLine, readLine, Text.firstLine_firstLine, hline, Text.dropReturn_concat,
      Utf8.chars_concat_return, List.map_append]
    simp [ofTapeChar]
  refine ⟨⟨fun heq h => ?_, fun h => ?_⟩, htwo⟩
  · have hlen := congrArg List.length heq
    rw [htwo h] at hlen
    simp at hlen
  · rw [readLine, readLine, Text.firstLine_firstLine, Text.dropReturn_firstLine h]

/-- With the line end `CR CR LF` the two do not agree. -/
theorem readLine_twice_returns :
    Input.readLine ⟨utf8 "ab\r\r\n", none⟩ = .ok (utf8 "ab\r") ∧
      readLine false (utf8 "ab\r") = [ofChar 'a', ofChar 'b'] ∧
      readLine false (utf8 "ab\r\r\n") = [ofChar 'a', ofChar 'b', ofChar '\r'] := by
  decide +kernel

end Symbol

end LogicMill
