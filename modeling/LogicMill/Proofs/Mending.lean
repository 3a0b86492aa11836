import LogicMill.Proofs.Utf8

/-! # Mended texts

Mending leaves whole characters alone and puts a replacement character in the place of anything else, so
a mended text is the encoding of some characters, and a text that is one already does not change.

* `mend_of_char`, `mend_of_stray`: the front of a text that is mended, a whole character or not.
* `exists_mend_eq_encode`: what comes of it is valid.
* `mend_encode`: valid text is kept.
-/

namespace LogicMill.Utf8
set_option autoImplicit false

theorem mendFrom_eq_append (cut : Bool) (skip : Nat) (done text : Bytes) :
    mendFrom cut skip done text = done.reverse ++ mendFrom cut skip [] text := by
  induction text generalizing skip done with
  | nil => simp [mendFrom]
  | cons b rest ih =>
    cases skip with
    | succ skip => rw [mendFrom, mendFrom, ih]
    | zero =>
      unfold mendFrom
      -- In every branch both sides go on with the same bytes behind `done`.
      split
      · rw [ih, ih 0 [b]]
        simp
      · split
        · rw [ih, ih 0 (_ ++ [])]
          simp
        · split
          · simp
          · split
            · rw [ih, ih _ (_ ++ [])]
              simp
            · rw [ih, ih _ (_ ++ [])]
              simp

theorem mendFrom_eq_mend_drop (cut : Bool) (skip : Nat) (text : Bytes) :
    mendFrom cut skip [] text = mend cut (text.drop skip) := by
  induction text generalizing skip with
  | nil => simp [mend, mendFrom]
  | cons b rest ih =>
    cases skip with
    | zero => rfl
    | succ skip => rw [mendFrom, ih, List.drop_succ_cons]

@[simp] theorem mend_nil (cut : Bool) : mend cut [] = [] := rfl

theorem mendFrom_eq_append_drop (cut : Bool) (skip : Nat) (done text : Bytes) :
    mendFrom cut skip done text = done.reverse ++ mend cut (text.drop skip) := by
  rw [mendFrom_eq_append, mendFrom_eq_mend_drop]

theorem mend_of_lt (cut : Bool) {b : UInt8} (rest : Bytes) (hb : b < 0x80) :
    mend cut (b :: rest) = b :: mend cut rest := by
  rw [mend, mendFrom, if_pos hb]
  simp [mendFrom_eq_append_drop]

theorem mend_of_noLead (cut : Bool) {b : UInt8} (rest : Bytes) (hb : ¬ b < 0x80) (hlead : lead? b = none) :
    mend cut (b :: rest) = replacement ++ mend cut rest := by
  rw [mend, mendFrom, if_neg hb, hlead]
  simp [mendFrom_eq_append_drop]

theorem mend_of_lead (cut : Bool) {b : UInt8} {l : Lead} (rest : Bytes) (hb : ¬ b < 0x80)
    (hlead : lead? b = some l) :
    mend cut (b :: rest) =
      if cut && (rest.take l.extra).length < l.extra then []
      else if l.matched rest = l.extra then b :: rest.take l.extra ++ mend cut (rest.drop l.extra)
      else replacement ++ mend cut (rest.drop (l.matched rest)) := by
  rw [mend, mendFrom, if_neg hb, hlead]
  simp [mendFrom_eq_append_drop]

/-- A character at the front of a text is kept. -/
theorem mend_of_char (cut : Bool) {b : UInt8} {rest : Bytes} {c : Char}
    (h : Letter.read b rest = .char c) :
    mend cut (b :: rest) = String.utf8EncodeChar c ++ mend cut (rest.drop (c.utf8Size - 1)) := by
  unfold Letter.read at h
  by_cases hb : b < 0x80
  · rw [if_pos hb] at h
    have hlt : b.toNat < 0x80 := by simpa [UInt8.lt_iff_toNat_lt] using hb
    cases h
    have hone := encodeChar_one hlt
    rw [UInt8.ofNat_toNat] at hone
    have hsize : (Char.ofNat b.toNat).utf8Size = 1 := by
      rw [← String.length_utf8EncodeChar, hone, List.length_singleton]
    rw [mend_of_lt cut rest hb, hone, hsize]
    rfl
  · rw [if_neg hb] at h
    cases hlead : lead? b with
    | none =>
      rw [hlead] at h
      cases h
    | some l =>
      by_cases hmatched : l.matched rest = l.extra
      · simp only [hlead, if_pos hmatched] at h
        cases h
        have hchar := encodeChar_of_matched hlead hmatched
        have hlen := length_take_of_matched hlead hmatched
        have hsize : (Char.ofNat (l.value (rest.take l.extra))).utf8Size = l.extra + 1 := by
          rw [← String.length_utf8EncodeChar, hchar, List.length_cons, hlen]
        rw [mend_of_lead cut rest hb hlead, hchar, hsize, hlen]
        simp [hmatched]
      · simp only [hlead, if_neg hmatched] at h
        cases h

/-- Bytes that are no character are replaced, or left out at the end of a text that is cut. -/
theorem mend_of_stray (cut : Bool) {b b' : UInt8} {rest : Bytes}
    (h : Letter.read b rest = .stray b') :
    mend cut (b :: rest) = [] ∨ ∃ k, mend cut (b :: rest) = replacement ++ mend cut (rest.drop k) := by
  unfold Letter.read at h
  by_cases hb : b < 0x80
  · rw [if_pos hb] at h
    cases h
  · rw [if_neg hb] at h
    cases hlead : lead? b with
    | none => exact .inr ⟨0, mend_of_noLead cut rest hb hlead⟩
    | some l =>
      by_cases hmatched : l.matched rest = l.extra
      · simp only [hlead, if_pos hmatched] at h
        cases h
      · rw [mend_of_lead cut rest hb hlead, if_neg hmatched]
        split
        · exact .inl rfl
        · exact .inr ⟨_, rfl⟩

theorem replacement_eq : replacement = encode ['\uFFFD'] := by decide

theorem exists_mend_eq_encode (cut : Bool) (text : Bytes) : ∃ chars, mend cut text = encode chars := by
  induction hn : text.length using Nat.strong_induction_on generalizing text with
  | _ n ih =>
    cases text with
    | nil => exact ⟨[], rfl⟩
    | cons b rest =>
      have hlt : ∀ k, (rest.drop k).length < n := by
        intro k
        rw [List.length_drop, ← hn, List.length_cons]
        omega
      cases h : Letter.read b rest with
      | char c =>
        obtain ⟨chars, hchars⟩ := ih _ (hlt (c.utf8Size - 1)) _ rfl
        exact ⟨c :: chars, by rw [mend_of_char cut h, hchars, encode_cons]⟩
      | stray b' =>
        rcases mend_of_stray cut h with hnil | ⟨k, hmend⟩
        · exact ⟨[], hnil⟩
        · obtain ⟨chars, hchars⟩ := ih _ (hlt k) _ rfl
          exact ⟨'\uFFFD' :: chars, by rw [hmend, hchars, replacement_eq, ← encode_append]; rfl⟩

theorem mend_encode (cut : Bool) (chars : List Char) : mend cut (encode chars) = encode chars := by
  induction chars with
  | nil => rfl
  | cons c chars ih =>
    obtain ⟨b, tail, hbytes, hread⟩ := Letter.read_encodeChar c (encode chars)
    have hsize : c.utf8Size - 1 = tail.length := by
      rw [← String.length_utf8EncodeChar, hbytes, List.length_cons, Nat.add_sub_cancel]
    have hcons : encode (c :: chars) = b :: (tail ++ encode chars) := by
      rw [encode_cons, hbytes, List.cons_append]
    rw [hcons, mend_of_char cut hread, hsize, List.drop_left, ih, hbytes, List.cons_append]

theorem isValid_encode (chars : List Char) : isValid (encode chars) = true := by
  simp [isValid, decode_encode]

end LogicMill.Utf8
