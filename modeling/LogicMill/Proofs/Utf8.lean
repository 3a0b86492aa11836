import LogicMill.Text.Utf8
import Mathlib.Data.List.Basic
import Mathlib.Data.List.TakeWhile
import Mathlib.Tactic.IntervalCases
import Mathlib.Tactic.SplitIfs

/-! # Reading and writing UTF-8

Reading a byte text letter by letter and writing characters are inverse to each other.

* `Lead.matched_eq_extra_iff`, `lead?_eq_some_iff`: which bytes may stand in a longer form, as numbers.
* `encodeChar_of_matched`: a promise that is kept is the encoding of the character that is read.
* `Letter.bytes_read`, `Letter.read_encodeChar`: one letter at the front of a text, in both directions.
* `flatMap_bytes_decode`, `decode_encode_append`: the same for whole texts, so that
  `decode_eq_map_char_iff` tells the texts without a stray byte.
* `decode_append_ascii`: a byte below 0x80 is a letter by itself in any text.
* `count_lineFeed_encode`, `getLast?_of_encode`: line feeds, and the last character if it is one byte, can
  be seen in the bytes.
-/

namespace LogicMill.Utf8
set_option autoImplicit false

/-! ## Lead bytes as numbers -/

theorem lead?_eq (b : UInt8) :
    lead? b =
      if b.toNat < 0xC2 then none
      else if b.toNat ≤ 0xDF then some ⟨1, 0x80, 0xBF, b.toNat - 0xC0⟩
      else if b.toNat = 0xE0 then some ⟨2, 0xA0, 0xBF, 0⟩
      else if b.toNat = 0xED then some ⟨2, 0x80, 0x9F, 13⟩
      else if b.toNat ≤ 0xEF then some ⟨2, 0x80, 0xBF, b.toNat - 0xE0⟩
      else if b.toNat = 0xF0 then some ⟨3, 0x90, 0xBF, 0⟩
      else if b.toNat ≤ 0xF3 then some ⟨3, 0x80, 0xBF, b.toNat - 0xF0⟩
      else if b.toNat = 0xF4 then some ⟨3, 0x80, 0x8F, 4⟩
      else none := by
  simp only [lead?, UInt8.lt_iff_toNat_lt, UInt8.le_iff_toNat_le, ← UInt8.toNat_inj]
  rfl

theorem isContinuation_iff (b : UInt8) :
    isContinuation b = true ↔ 0x80 ≤ b.toNat ∧ b.toNat ≤ 0xBF := by
  simp [isContinuation, UInt8.le_iff_toNat_le]

/-- A promise is kept exactly when the byte after the lead is in its range and all other bytes that
were promised are there and are continuation bytes. -/
theorem Lead.matched_eq_extra_iff {l : Lead} (hl : 0 < l.extra) (rest : Bytes) :
    l.matched rest = l.extra ↔
      ∃ x tail, rest.take l.extra = x :: tail ∧ tail.length + 1 = l.extra ∧
        (l.lo ≤ x ∧ x ≤ l.hi) ∧ ∀ y ∈ tail, isContinuation y = true := by
  cases rest with
  | nil =>
    simp [Lead.matched]
    omega
  | cons x rest =>
    obtain ⟨extra, hextra⟩ : ∃ k, l.extra = k + 1 := ⟨l.extra - 1, by omega⟩
    simp only [Lead.matched, hextra, List.take_succ_cons, List.cons.injEq, Nat.add_sub_cancel]
    constructor
    · intro h
      by_cases hx : (l.lo ≤ x && x ≤ l.hi) = true
      · rw [if_pos hx] at h
        have hsub := (List.takeWhile_sublist isContinuation (l := rest.take extra))
        have hlen := List.length_take_le extra rest
        have heq : (rest.take extra).takeWhile isContinuation = rest.take extra :=
          hsub.eq_of_length_le (by omega)
        refine ⟨x, rest.take extra, ⟨rfl, rfl⟩, by rw [← heq]; omega, by simpa using hx, ?_⟩
        rw [← heq]
        exact fun y hy => (List.mem_takeWhile_imp hy)
      · rw [if_neg hx] at h
        omega
    · rintro ⟨_, tail, ⟨rfl, rfl⟩, hlen, hx, hall⟩
      rw [if_pos (by simpa using hx), List.takeWhile_eq_self_iff.2 hall]
      omega

theorem val_toNat_ofNat {n : Nat} (h : n.isValidChar) : (Char.ofNat n).val.toNat = n := by
  rw [Char.ofNat, dif_pos h]
  rfl

/-! ## Forms of one character -/

theorem encodeChar_one {n : Nat} (h : n < 0x80) :
    String.utf8EncodeChar (Char.ofNat n) = [UInt8.ofNat n] := by
  have hn : (Char.ofNat n).val.toNat = n := val_toNat_ofNat (.inl (by omega))
  simp only [String.utf8EncodeChar, hn]
  rw [if_pos (by omega)]

theorem encodeChar_two {a x : Nat} (ha : 2 ≤ a ∧ a < 32) (hx : x < 64) :
    String.utf8EncodeChar (Char.ofNat (a * 64 + x)) =
      [UInt8.ofNat (a + 0xC0), UInt8.ofNat (x + 0x80)] := by
  have hn : (Char.ofNat (a * 64 + x)).val.toNat = a * 64 + x := val_toNat_ofNat (.inl (by omega))
  simp only [String.utf8EncodeChar, hn]
  rw [if_neg (by omega), if_pos (by omega)]
  congr 3
  · omega
  · congr 1
    omega

theorem encodeChar_three {a x y : Nat} (ha : a < 16) (hx : x < 64) (hy : y < 64)
    (hlow : 0x800 ≤ a * 4096 + x * 64 + y)
    (hvalid : (a * 4096 + x * 64 + y).isValidChar) :
    String.utf8EncodeChar (Char.ofNat (a * 4096 + x * 64 + y)) =
      [UInt8.ofNat (a + 0xE0), UInt8.ofNat (x + 0x80), UInt8.ofNat (y + 0x80)] := by
  have hn := val_toNat_ofNat hvalid
  simp only [String.utf8EncodeChar, hn]
  rw [if_neg (by omega), if_neg (by omega), if_pos (by omega)]
  have h0 : (a * 4096 + x * 64 + y) / 4096 % 16 = a := by omega
  have h1 : (a * 4096 + x * 64 + y) / 64 % 64 = x := by omega
  have h2 : (a * 4096 + x * 64 + y) % 64 = y := by omega
  rw [h0, h1, h2]

theorem encodeChar_four {a x y z : Nat} (ha : a < 8) (hx : x < 64) (hy : y < 64) (hz : z < 64)
    (hlow : 0x10000 ≤ a * 262144 + x * 4096 + y * 64 + z)
    (hvalid : (a * 262144 + x * 4096 + y * 64 + z).isValidChar) :
    String.utf8EncodeChar (Char.ofNat (a * 262144 + x * 4096 + y * 64 + z)) =
      [UInt8.ofNat (a + 0xF0), UInt8.ofNat (x + 0x80), UInt8.ofNat (y + 0x80),
        UInt8.ofNat (z + 0x80)] := by
  have hn := val_toNat_ofNat hvalid
  simp only [String.utf8EncodeChar, hn]
  rw [if_neg (by omega), if_neg (by omega), if_neg (by omega)]
  have h0 : (a * 262144 + x * 4096 + y * 64 + z) / 262144 % 8 = a := by omega
  have h1 : (a * 262144 + x * 4096 + y * 64 + z) / 4096 % 64 = x := by omega
  have h2 : (a * 262144 + x * 4096 + y * 64 + z) / 64 % 64 = y := by omega
  have h3 : (a * 262144 + x * 4096 + y * 64 + z) % 64 = z := by omega
  rw [h0, h1, h2, h3]

/-- The lead bytes: those of two, three and four bytes, with what they contribute to the value. The
first continuation byte has a smaller range where a full one would allow an overlong form, a
surrogate or a value above U+10FFFF. -/
theorem lead?_eq_some_iff {b : UInt8} {l : Lead} :
    lead? b = some l ↔
      (∃ a, (2 ≤ a ∧ a < 32) ∧ b = UInt8.ofNat (a + 0xC0) ∧ l = ⟨1, 0x80, 0xBF, a⟩) ∨
      (∃ a, a < 16 ∧ b = UInt8.ofNat (a + 0xE0) ∧
        l = ⟨2, if a = 0 then 0xA0 else 0x80, if a = 13 then 0x9F else 0xBF, a⟩) ∨
      ∃ a, a ≤ 4 ∧ b = UInt8.ofNat (a + 0xF0) ∧
        l = ⟨3, if a = 0 then 0x90 else 0x80, if a = 4 then 0x8F else 0xBF, a⟩ := by
  constructor
  · intro h
    have hb := b.toNat_lt
    rw [lead?_eq] at h
    have byte : ∀ n, b.toNat = n → b = UInt8.ofNat n := fun n hn => by
      rw [← hn, UInt8.ofNat_toNat]
    split_ifs at h with h1 h2 h3 h4 h5 h6 h7 h8 <;> cases h
    · exact .inl ⟨b.toNat - 0xC0, by omega, byte _ (by omega), rfl⟩
    · exact .inr (.inl ⟨0, by omega, byte _ (by omega), rfl⟩)
    · exact .inr (.inl ⟨13, by omega, byte _ (by omega), rfl⟩)
    · refine .inr (.inl ⟨b.toNat - 0xE0, by omega, byte _ (by omega), ?_⟩)
      rw [if_neg (by omega), if_neg (by omega)]
    · exact .inr (.inr ⟨0, by omega, byte _ (by omega), rfl⟩)
    · refine .inr (.inr ⟨b.toNat - 0xF0, by omega, byte _ (by omega), ?_⟩)
      rw [if_neg (by omega), if_neg (by omega)]
    · exact .inr (.inr ⟨4, by omega, byte _ (by omega), rfl⟩)
  · rintro (⟨a, ha, rfl, rfl⟩ | ⟨a, ha, rfl, rfl⟩ | ⟨a, ha, rfl, rfl⟩)
    · have hn : (UInt8.ofNat (a + 0xC0)).toNat = a + 0xC0 := UInt8.toNat_ofNat_of_lt' (show _ < 256 by omega)
      rw [lead?_eq, hn, if_neg (by omega), if_pos (by omega), Nat.add_sub_cancel]
    · have hn : (UInt8.ofNat (a + 0xE0)).toNat = a + 0xE0 := UInt8.toNat_ofNat_of_lt' (show _ < 256 by omega)
      rw [lead?_eq, hn, if_neg (by omega), if_neg (by omega)]
      by_cases h0 : a = 0
      · subst h0
        rfl
      by_cases h13 : a = 13
      · subst h13
        rfl
      rw [if_neg (by omega), if_neg (by omega), if_pos (by omega), if_neg h0, if_neg h13,
        Nat.add_sub_cancel]
    · have hn : (UInt8.ofNat (a + 0xF0)).toNat = a + 0xF0 := UInt8.toNat_ofNat_of_lt' (show _ < 256 by omega)
      rw [lead?_eq, hn]
      interval_cases a <;> rfl

theorem extra_pos {b : UInt8} {l : Lead} (h : lead? b = some l) : 0 < l.extra := by
  rcases lead?_eq_some_iff.1 h with ⟨_, _, _, rfl⟩ | ⟨_, _, _, rfl⟩ | ⟨_, _, _, rfl⟩ <;> simp

theorem lo_ge {b : UInt8} {l : Lead} (h : lead? b = some l) : 0x80 ≤ l.lo.toNat := by
  rcases lead?_eq_some_iff.1 h with ⟨_, _, _, rfl⟩ | ⟨_, _, _, rfl⟩ | ⟨_, _, _, rfl⟩
  · simp
  · dsimp only
    split <;> simp
  · dsimp only
    split <;> simp

theorem length_take_of_matched {b : UInt8} {l : Lead} {rest : Bytes} (hlead : lead? b = some l)
    (hmatched : l.matched rest = l.extra) : (rest.take l.extra).length = l.extra := by
  obtain ⟨x, tail, htake, hlen, -⟩ := (Lead.matched_eq_extra_iff (extra_pos hlead) rest).1 hmatched
  rw [htake, List.length_cons, hlen]

/-- Where the promise of a lead byte is kept, the lead byte and the bytes that keep it are the
encoding of the character that is read. -/
theorem encodeChar_of_matched {b : UInt8} {l : Lead} {rest : Bytes} (hlead : lead? b = some l)
    (hmatched : l.matched rest = l.extra) :
    String.utf8EncodeChar (Char.ofNat (l.value (rest.take l.extra))) = b :: rest.take l.extra := by
  obtain ⟨x, tail, htake, hlen, ⟨hlo, hhi⟩, hall⟩ :=
    (Lead.matched_eq_extra_iff (extra_pos hlead) rest).1 hmatched
  rw [htake]
  rw [UInt8.le_iff_toNat_le] at hlo hhi
  have byte : ∀ y : UInt8, 0x80 ≤ y.toNat → UInt8.ofNat (y.toNat - 0x80 + 0x80) = y := fun y hy => by
    rw [Nat.sub_add_cancel hy, UInt8.ofNat_toNat]
  rcases lead?_eq_some_iff.1 hlead with ⟨a, ha, rfl, rfl⟩ | ⟨a, ha, rfl, rfl⟩ | ⟨a, ha, rfl, rfl⟩
  · obtain rfl : tail = [] := List.eq_nil_of_length_eq_zero (by simpa using hlen)
    simp only [UInt8.reduceToNat] at hlo hhi
    simp only [Lead.value, List.foldl_cons, List.foldl_nil]
    rw [encodeChar_two ha (by omega), byte x hlo]
  · obtain ⟨y, rfl⟩ : ∃ y, tail = [y] := List.length_eq_one_iff.1 (by simpa using hlen)
    obtain ⟨hy, hy'⟩ := (isContinuation_iff y).1 (hall y (by simp))
    have hx : 0x80 ≤ x.toNat ∧ x.toNat ≤ 0xBF ∧ (a = 0 → 0xA0 ≤ x.toNat) ∧
        (a = 13 → x.toNat ≤ 0x9F) := by
      split_ifs at hlo hhi <;> simp only [UInt8.reduceToNat] at hlo hhi <;> omega
    have hvalue : (a * 64 + (x.toNat - 0x80)) * 64 + (y.toNat - 0x80) =
        a * 4096 + (x.toNat - 0x80) * 64 + (y.toNat - 0x80) := by omega
    simp only [Lead.value, List.foldl_cons, List.foldl_nil]
    rw [hvalue, encodeChar_three ha (by omega) (by omega) (by omega)
      (by unfold Nat.isValidChar; omega), byte x hx.1, byte y hy]
  · obtain ⟨y, z, rfl⟩ : ∃ y z, tail = [y, z] := List.length_eq_two.1 (by simpa using hlen)
    obtain ⟨hy, hy'⟩ := (isContinuation_iff y).1 (hall y (by simp))
    obtain ⟨hz, hz'⟩ := (isContinuation_iff z).1 (hall z (by simp))
    have hx : 0x80 ≤ x.toNat ∧ x.toNat ≤ 0xBF ∧ (a = 0 → 0x90 ≤ x.toNat) ∧
        (a = 4 → x.toNat ≤ 0x8F) := by
      split_ifs at hlo hhi <;> simp only [UInt8.reduceToNat] at hlo hhi <;> omega
    have hvalue : ((a * 64 + (x.toNat - 0x80)) * 64 + (y.toNat - 0x80)) * 64 + (z.toNat - 0x80) =
        a * 262144 + (x.toNat - 0x80) * 4096 + (y.toNat - 0x80) * 64 + (z.toNat - 0x80) := by omega
    simp only [Lead.value, List.foldl_cons, List.foldl_nil]
    rw [hvalue, encodeChar_four (by omega) (by omega) (by omega) (by omega) (by omega)
      (by unfold Nat.isValidChar; omega), byte x hx.1, byte y hy, byte z hz]

/-! ## Letters -/

@[simp] theorem Letter.length_bytes (letter : Letter) : letter.bytes.length = letter.size := by
  cases letter with
  | char c => exact String.length_utf8EncodeChar c
  | stray b => rfl

/-- The letter at the front of a text takes up the bytes that it is made of. -/
theorem Letter.bytes_read (b : UInt8) (rest : Bytes) :
    (Letter.read b rest).bytes ++ rest.drop ((Letter.read b rest).size - 1) = b :: rest := by
  suffices h : ∃ k, (Letter.read b rest).bytes = b :: rest.take k ∧ (rest.take k).length = k by
    obtain ⟨k, hbytes, hk⟩ := h
    have hsize := (Letter.read b rest).length_bytes
    rw [hbytes, List.length_cons, hk] at hsize
    rw [hbytes, ← hsize, Nat.add_sub_cancel, List.cons_append, List.take_append_drop]
  unfold Letter.read
  split
  · next hb =>
    have hlt : b.toNat < 0x80 := by simpa [UInt8.lt_iff_toNat_lt] using hb
    exact ⟨0, by simp [Letter.bytes, encodeChar_one hlt], rfl⟩
  · split
    · exact ⟨0, by simp [Letter.bytes], rfl⟩
    · next l hlead =>
      split
      · next hmatched =>
        exact ⟨l.extra, encodeChar_of_matched hlead hmatched, length_take_of_matched hlead hmatched⟩
      · exact ⟨0, by simp [Letter.bytes], rfl⟩

/-- A lead byte before bytes that keep its promise is read as the character of their value. -/
theorem Letter.read_of_lead {b x : UInt8} {l : Lead} {tail : Bytes} (hlead : lead? b = some l)
    (hlen : tail.length + 1 = l.extra) (hx : l.lo.toNat ≤ x.toNat ∧ x.toNat ≤ l.hi.toNat)
    (htail : ∀ y ∈ tail, 0x80 ≤ y.toNat ∧ y.toNat ≤ 0xBF) (rest : Bytes) :
    Letter.read b (x :: tail ++ rest) = .char (Char.ofNat (l.value (x :: tail))) := by
  have htake : (x :: tail ++ rest).take l.extra = x :: tail := by
    rw [← hlen, List.cons_append, List.take_succ_cons, List.take_left]
  have hmatched : l.matched (x :: tail ++ rest) = l.extra := by
    refine (Lead.matched_eq_extra_iff (by omega) _).2 ⟨x, tail, htake, hlen, hx, ?_⟩
    exact fun y hy => (isContinuation_iff y).2 (htail y hy)
  have hb : ¬ b < 0x80 := by
    intro hlt
    rw [UInt8.lt_iff_toNat_lt] at hlt
    rw [lead?_eq, if_pos (lt_trans hlt (by decide))] at hlead
    cases hlead
  simp only [Letter.read, if_neg hb, hlead, if_pos hmatched, htake]

/-- The encoding of a character is read as that character, whatever follows it. -/
theorem Letter.read_encodeChar (c : Char) (rest : Bytes) :
    ∃ b tail, String.utf8EncodeChar c = b :: tail ∧ Letter.read b (tail ++ rest) = .char c := by
  obtain ⟨n, hvalid, rfl⟩ : ∃ n : Nat, n.isValidChar ∧ c = Char.ofNat n :=
    ⟨c.toNat, c.valid, (Char.ofNat_toNat c).symm⟩
  have byte : ∀ k, k < 64 → (UInt8.ofNat (k + 0x80)).toNat = k + 0x80 := fun k hk =>
    UInt8.toNat_ofNat_of_lt' (show _ < 256 by omega)
  unfold Nat.isValidChar at hvalid
  rcases lt_or_ge n 0x80 with h1 | h1
  · refine ⟨UInt8.ofNat n, [], encodeChar_one h1, ?_⟩
    have hn : (UInt8.ofNat n).toNat = n := UInt8.toNat_ofNat_of_lt' (show _ < 256 by omega)
    have hlt : UInt8.ofNat n < 0x80 := by
      rw [UInt8.lt_iff_toNat_lt, hn]
      exact h1
    simp only [Letter.read, if_pos hlt, hn]
  rcases lt_or_ge n 0x800 with h2 | h2
  · obtain ⟨a, x, rfl, ha, hx⟩ : ∃ a x, n = a * 64 + x ∧ (2 ≤ a ∧ a < 32) ∧ x < 64 :=
      ⟨n / 64, n % 64, by omega, by omega, by omega⟩
    refine ⟨_, _, encodeChar_two ha hx, ?_⟩
    rw [Letter.read_of_lead (lead?_eq_some_iff.2 (.inl ⟨a, ha, rfl, rfl⟩)) rfl
      (by rw [byte x hx]; simp; omega) (by simp)]
    simp only [Lead.value, List.foldl_cons, List.foldl_nil, byte x hx, Nat.add_sub_cancel]
  rcases lt_or_ge n 0x10000 with h3 | h3
  · obtain ⟨a, x, y, rfl, ha, hx, hy⟩ : ∃ a x y, n = a * 4096 + x * 64 + y ∧ a < 16 ∧ x < 64 ∧ y < 64 :=
      ⟨n / 4096, n / 64 % 64, n % 64, by omega, by omega, by omega, by omega⟩
    refine ⟨_, _, encodeChar_three ha hx hy h2 hvalid, ?_⟩
    rw [Letter.read_of_lead (lead?_eq_some_iff.2 (.inr (.inl ⟨a, ha, rfl, rfl⟩))) rfl ?_
      (by simp; omega)]
    · simp only [Lead.value, List.foldl_cons, List.foldl_nil, byte x hx, byte y hy,
        Nat.add_sub_cancel]
      congr 2
      omega
    · rw [byte x hx]
      split_ifs <;> simp <;> omega
  · obtain ⟨a, x, y, z, rfl, ha, hx, hy, hz⟩ : ∃ a x y z, n = a * 262144 + x * 4096 + y * 64 + z ∧
        a ≤ 4 ∧ x < 64 ∧ y < 64 ∧ z < 64 :=
      ⟨n / 262144, n / 4096 % 64, n / 64 % 64, n % 64, by omega, by omega, by omega, by omega,
        by omega⟩
    refine ⟨_, _, encodeChar_four (by omega) hx hy hz h3 hvalid, ?_⟩
    rw [Letter.read_of_lead (lead?_eq_some_iff.2 (.inr (.inr ⟨a, ha, rfl, rfl⟩))) rfl ?_
      (by simp; omega)]
    · simp only [Lead.value, List.foldl_cons, List.foldl_nil, byte x hx, byte y hy, byte z hz,
        Nat.add_sub_cancel]
      congr 2
      omega
    · rw [byte x hx]
      split_ifs <;> simp <;> omega

/-- A byte below 0x80 keeps no promise: the letter before it is read as if the text ended there. -/
theorem Letter.read_append_ascii {c : UInt8} (hc : c < 0x80) (b : UInt8) (rest more : Bytes) :
    Letter.read b (rest ++ c :: more) = Letter.read b rest := by
  have hc' : c.toNat < 0x80 := UInt8.lt_iff_toNat_lt.1 hc
  unfold Letter.read
  split
  · rfl
  · split
    · rfl
    · next l hlead =>
      by_cases hlong : l.extra ≤ rest.length
      · -- The promise is about bytes before `c`.
        have htake : (rest ++ c :: more).take l.extra = rest.take l.extra :=
          List.take_append_of_le_length hlong
        have hmatched : l.matched (rest ++ c :: more) = l.extra ↔ l.matched rest = l.extra := by
          rw [Lead.matched_eq_extra_iff (extra_pos hlead), Lead.matched_eq_extra_iff (extra_pos hlead), htake]
        simp only [hmatched, htake]
      · have hshort : ¬ l.matched rest = l.extra := by
          intro h
          have := length_take_of_matched hlead h
          rw [List.length_take] at this
          omega
        have hbroken : ¬ l.matched (rest ++ c :: more) = l.extra := by
          intro h
          obtain ⟨x, tail, htake, -, ⟨hlo, -⟩, htail⟩ :=
            (Lead.matched_eq_extra_iff (extra_pos hlead) _).1 h
          have hmem : c ∈ x :: tail := by
            rw [← htake, List.take_append, List.mem_append]
            obtain ⟨k, hk⟩ : ∃ k, l.extra - rest.length = k + 1 := ⟨l.extra - rest.length - 1, by omega⟩
            simp [hk]
          rcases List.mem_cons.1 hmem with rfl | hmem
          · have := lo_ge hlead
            rw [UInt8.le_iff_toNat_le] at hlo
            omega
          · have := ((isContinuation_iff c).1 (htail c hmem)).1
            omega
        rw [if_neg hshort, if_neg hbroken]

/-! ## Texts -/

theorem decodeFrom_eq_append (skip : Nat) (done : List Letter) (text : Bytes) :
    decodeFrom skip done text = done.reverse ++ decodeFrom skip [] text := by
  induction text generalizing skip done with
  | nil => simp [decodeFrom]
  | cons b rest ih =>
    cases skip with
    | zero =>
      rw [decodeFrom, decodeFrom, ih, ih _ [_], List.reverse_cons, List.append_assoc]
      rfl
    | succ skip => rw [decodeFrom, decodeFrom, ih]

theorem decodeFrom_eq_decode_drop (skip : Nat) (text : Bytes) :
    decodeFrom skip [] text = decode (text.drop skip) := by
  induction text generalizing skip with
  | nil => simp [decode, decodeFrom]
  | cons b rest ih =>
    cases skip with
    | zero => rfl
    | succ skip => rw [decodeFrom, ih, List.drop_succ_cons]

@[simp] theorem decode_nil : decode [] = [] := rfl

theorem decode_cons (b : UInt8) (rest : Bytes) :
    decode (b :: rest) =
      Letter.read b rest :: decode (rest.drop ((Letter.read b rest).size - 1)) := by
  rw [decode, decodeFrom, decodeFrom_eq_append, decodeFrom_eq_decode_drop, List.reverse_singleton,
    List.singleton_append]

/-- No byte is lost: the bytes of the letters are the text. -/
theorem flatMap_bytes_decode (text : Bytes) : (decode text).flatMap Letter.bytes = text := by
  induction hn : text.length using Nat.strong_induction_on generalizing text with
  | _ n ih =>
    cases text with
    | nil => rfl
    | cons b rest =>
      have hlen : (rest.drop ((Letter.read b rest).size - 1)).length < n := by
        rw [List.length_drop, ← hn, List.length_cons]
        omega
      rw [decode_cons, List.flatMap_cons, ih _ hlen _ rfl, Letter.bytes_read]

/-- A byte below 0x80 begins a letter, whatever stands before it. -/
theorem decode_append_ascii {c : UInt8} (hc : c < 0x80) (text more : Bytes) :
    decode (text ++ c :: more) = decode text ++ decode (c :: more) := by
  induction hn : text.length using Nat.strong_induction_on generalizing text with
  | _ n ih =>
    cases text with
    | nil => rfl
    | cons b rest =>
      have hsize : (Letter.read b rest).size - 1 ≤ rest.length := by
        have hlen := congrArg List.length (Letter.bytes_read b rest)
        rw [List.length_append, Letter.length_bytes, List.length_drop, List.length_cons] at hlen
        omega
      have hlt : (rest.drop ((Letter.read b rest).size - 1)).length < n := by
        rw [List.length_drop, ← hn, List.length_cons]
        omega
      rw [List.cons_append, decode_cons, decode_cons, Letter.read_append_ascii hc,
        List.drop_append_of_le_length hsize, ih _ hlt _ rfl, List.cons_append]

@[simp] theorem encode_nil : encode [] = [] := rfl

@[simp] theorem encode_cons (c : Char) (chars : List Char) :
    encode (c :: chars) = String.utf8EncodeChar c ++ encode chars := rfl

@[simp] theorem encode_append (a b : List Char) : encode (a ++ b) = encode a ++ encode b :=
  List.flatMap_append

/-- The encoding of characters is read as these characters, whatever follows it. -/
theorem decode_encode_append (chars : List Char) (more : Bytes) :
    decode (encode chars ++ more) = chars.map .char ++ decode more := by
  induction chars with
  | nil => rfl
  | cons c chars ih =>
    obtain ⟨b, tail, hbytes, hread⟩ := Letter.read_encodeChar c (encode chars ++ more)
    have hsize : c.utf8Size - 1 = tail.length := by
      rw [← String.length_utf8EncodeChar, hbytes, List.length_cons, Nat.add_sub_cancel]
    rw [encode_cons, List.append_assoc, hbytes, List.cons_append, decode_cons, hread, List.map_cons]
    rw [Letter.size, hsize, List.drop_left, ih, List.cons_append]

theorem decode_encode (chars : List Char) : decode (encode chars) = chars.map .char := by
  have h := decode_encode_append chars []
  rwa [List.append_nil, decode_nil, List.append_nil] at h

/-- A text is read as the given characters exactly when it is their encoding. -/
theorem decode_eq_map_char_iff {text : Bytes} {chars : List Char} :
    decode text = chars.map .char ↔ text = encode chars := by
  constructor
  · intro h
    rw [← flatMap_bytes_decode text, h, List.flatMap_map]
    rfl
  · rintro rfl
    exact decode_encode chars

@[simp] theorem count_encode (chars : List Char) : count (encode chars) = chars.length := by
  rw [count, decode_encode, List.length_map]

/-! ## Line feeds and ends of texts -/

theorem ofNat_eq_lineFeed_iff {k : Nat} (hk : k < 256) : UInt8.ofNat k = 0x0A ↔ k = 10 := by
  rw [← UInt8.toNat_inj, UInt8.toNat_ofNat_of_lt' hk]
  rfl

/-- A line feed is one byte, and that byte is part of no other character. -/
theorem count_lineFeed_encodeChar (c : Char) :
    (String.utf8EncodeChar c).count 0x0A = if c = '\n' then 1 else 0 := by
  have hc : c = '\n' ↔ c.val.toNat = 10 := by
    rw [← Char.val_inj, ← UInt32.toNat_inj]
    rfl
  simp only [String.utf8EncodeChar, hc]
  generalize c.val.toNat = v
  by_cases h : v ≤ 127
  · have hv : v < 256 := by omega
    rw [if_pos h, List.count_singleton]
    simp only [beq_iff_eq, ofNat_eq_lineFeed_iff hv]
  · have hv : v ≠ 10 := by omega
    have hhigh (k : Nat) (hk : 128 ≤ k ∧ k < 256) : (0x0A : UInt8) ≠ UInt8.ofNat k := by
      intro heq
      have := (ofNat_eq_lineFeed_iff hk.2).1 heq.symm
      omega
    rw [if_neg h, if_neg hv, List.count_eq_zero]
    split_ifs <;> simp only [List.mem_cons, List.not_mem_nil, or_false, not_or]
    · exact ⟨hhigh _ (by omega), hhigh _ (by omega)⟩
    · exact ⟨hhigh _ (by omega), hhigh _ (by omega), hhigh _ (by omega)⟩
    · exact ⟨hhigh _ (by omega), hhigh _ (by omega), hhigh _ (by omega), hhigh _ (by omega)⟩

theorem count_lineFeed_encode (chars : List Char) :
    (encode chars).count 0x0A = chars.count '\n' := by
  induction chars with
  | nil => rfl
  | cons c chars ih =>
    rw [encode_cons, List.count_append, ih, count_lineFeed_encodeChar, List.count_cons, Nat.add_comm]
    simp only [beq_iff_eq]

/-- A text that ends in a byte below 0x80 ends in the character of that byte. -/
theorem getLast?_of_encode {b : UInt8} (hb : b < 0x80) {chars : List Char}
    (h : (encode chars).getLast? = some b) : chars.getLast? = some (Char.ofNat b.toNat) := by
  obtain ⟨front, hfront⟩ := List.getLast?_eq_some_iff.1 h
  have hletters := decode_append_ascii hb front []
  have hletter : Letter.read b [] = .char (Char.ofNat b.toNat) := if_pos hb
  rw [← hfront, decode_encode, decode_cons, hletter, List.drop_nil, decode_nil] at hletters
  have hlast := congrArg List.getLast? hletters
  rw [List.getLast?_map, List.getLast?_concat, Option.map_eq_some_iff] at hlast
  obtain ⟨c, hc, heq⟩ := hlast
  rw [hc, Letter.char.inj heq]

end LogicMill.Utf8
