import LogicMill.Source
import LogicMill.Rules.Assembler
import LogicMill.Proofs.Mending
import LogicMill.Proofs.Places

/-! # Texts in four encodings

A text may be stored in plain UTF-8, in UTF-8 behind a mark, or in UTF-16 of either byte order behind a
mark. What is read is the same, and the rules in it make the same program or the same fault. Bytes that
are no text in their encoding are read as replacement characters, except behind the mark of UTF-8.

* `Encoding.write`: a text in an encoding; `Encoding.units` are the 16-bit units of a character.
* `Encoding.unitsFrom_write`, `Encoding.charsFrom_units`, `Encoding.detect_plain`: the three parts of
  reading, each undone.
* `Input.decode_write`: reading undoes writing.
* `Input.exists_decode_eq_encode`: what is read is valid, whatever the bytes are.
* `Source.Presents`: the bytes that an argument stands for.
* `Source.assemble_encoded`, `Source.legible_unmarked`: both for the program text of an invocation.
-/

namespace LogicMill
set_option autoImplicit false

/-! ## Writing -/

namespace Encoding

/-- The 16-bit units of a character: a pair of surrogates for one beyond U+FFFF. -/
def units (c : Char) : List ℕ :=
  if c.toNat < 0x10000 then [c.toNat]
  else [0xD800 + (c.toNat - 0x10000) / 0x400, 0xDC00 + (c.toNat - 0x10000) % 0x400]

def unitBytes : (bigEndian : Bool) → ℕ → Bytes
  | true, unit => [UInt8.ofNat (unit / 256), UInt8.ofNat (unit % 256)]
  | false, unit => [UInt8.ofNat (unit % 256), UInt8.ofNat (unit / 256)]

/-- The bytes that tell an encoding. -/
def mark : Encoding → Bytes
  | .plain => []
  | .marked => [0xEF, 0xBB, 0xBF]
  | .utf16 false => [0xFF, 0xFE]
  | .utf16 true => [0xFE, 0xFF]

/-- A text in an encoding, with its mark. -/
def write : Encoding → List Char → Bytes
  | .plain, s => Utf8.encode s
  | .marked, s => mark .marked ++ Utf8.encode s
  | .utf16 bigEndian, s =>
    mark (.utf16 bigEndian) ++ (s.flatMap units).flatMap (unitBytes bigEndian)

/-- A text that begins with the character of the mark cannot be written without one. -/
def Suits : Encoding → List Char → Prop
  | .plain, s => s.head? ≠ some '\uFEFF'
  | _, _ => True

/-! ## Units and bytes -/

theorem toNat_cases (c : Char) : c.toNat < 0xD800 ∨ 0xDFFF < c.toNat ∧ c.toNat < 0x110000 := c.valid

theorem units_lt {c : Char} {unit : ℕ} (h : unit ∈ units c) : unit < 65536 := by
  have hc := toNat_cases c
  unfold units at h
  split at h
  · next hlt =>
    rw [List.mem_singleton.1 h]
    exact hlt
  · simp only [List.mem_cons, List.not_mem_nil, or_false] at h
    omega

theorem unitsFrom_write (bigEndian : Bool) (done units : List ℕ) (h : ∀ unit ∈ units, unit < 65536) :
    unitsFrom bigEndian done (units.flatMap (unitBytes bigEndian)) = (done.reverse ++ units, false) := by
  induction units generalizing done with
  | nil => simp [unitsFrom]
  | cons unit units ih =>
    have hunit : unit < 65536 := h unit (by simp)
    have hhigh : (UInt8.ofNat (unit / 256)).toNat = unit / 256 :=
      UInt8.toNat_ofNat_of_lt' (show _ < 256 by omega)
    have hlow : (UInt8.ofNat (unit % 256)).toNat = unit % 256 :=
      UInt8.toNat_ofNat_of_lt' (show _ < 256 by omega)
    have hsplit : unit / 256 * 256 + unit % 256 = unit := by omega
    have hrest := ih (unit :: done) fun u hu => h u (by simp [hu])
    rw [List.reverse_cons, List.append_assoc, List.singleton_append] at hrest
    cases bigEndian with
    | true =>
      simp only [List.flatMap_cons, unitBytes, List.cons_append, List.nil_append, unitsFrom, if_true,
        hhigh, hlow, hsplit]
      exact hrest
    | false =>
      simp only [List.flatMap_cons, unitBytes, List.cons_append, List.nil_append, unitsFrom,
        Bool.false_eq_true, if_false, hhigh, hlow, hsplit]
      exact hrest

/-! ## Units and characters -/

theorem isSurrogate_eq_false (c : Char) : isSurrogate c.toNat = false := by
  have hc := toNat_cases c
  simp only [isSurrogate, Bool.and_eq_false_iff, decide_eq_false_iff_not]
  omega

theorem charsFrom_single (cut : Bool) (done : List Char) {unit : ℕ} (rest : List ℕ)
    (h : isSurrogate unit = false) :
    charsFrom cut done (unit :: rest) = charsFrom cut (Char.ofNat unit :: done) rest := by
  cases rest <;> simp [charsFrom, h]

theorem charsFrom_pair (cut : Bool) (done : List Char) {first second : ℕ} (rest : List ℕ)
    (hfirst : isSurrogate first = true) (hsecond : isLowSurrogate second = true) :
    charsFrom cut done (first :: second :: rest) =
      charsFrom cut (pair first second :: done) rest := by
  simp [charsFrom, hfirst, hsecond]

theorem charsFrom_units (cut : Bool) (done : List Char) (c : Char) (rest : List ℕ) :
    charsFrom cut done (units c ++ rest) = charsFrom cut (c :: done) rest := by
  unfold units
  split
  · rw [List.singleton_append, charsFrom_single cut done rest (isSurrogate_eq_false c),
      Char.ofNat_toNat]
  · next hlarge =>
    have hc := toNat_cases c
    have hfirst : isSurrogate (0xD800 + (c.toNat - 0x10000) / 0x400) = true := by
      simp only [isSurrogate, Bool.and_eq_true, decide_eq_true_eq]
      omega
    have hhigh : isLowSurrogate (0xD800 + (c.toNat - 0x10000) / 0x400) = false := by
      simp only [isLowSurrogate, Bool.and_eq_false_iff, decide_eq_false_iff_not]
      omega
    have hsecond : isLowSurrogate (0xDC00 + (c.toNat - 0x10000) % 0x400) = true := by
      simp only [isLowSurrogate, Bool.and_eq_true, decide_eq_true_eq]
      omega
    have hvalue : 0x10000 + (0xD800 + (c.toNat - 0x10000) / 0x400 - 0xD800) * 0x400 +
        (0xDC00 + (c.toNat - 0x10000) % 0x400 - 0xDC00) = c.toNat := by omega
    rw [List.cons_append, List.singleton_append, charsFrom_pair cut done rest hfirst hsecond, pair,
      hhigh, if_neg Bool.false_ne_true, hvalue, Char.ofNat_toNat]

theorem charsFrom_flatMap_units (cut : Bool) (done s : List Char) :
    charsFrom cut done (s.flatMap units) = done.reverse ++ s := by
  induction s generalizing done with
  | nil => simp [charsFrom]
  | cons c s ih =>
    rw [List.flatMap_cons, charsFrom_units, ih]
    simp

theorem fromUtf16_write (bigEndian cut : Bool) (s : List Char) :
    fromUtf16 bigEndian cut ((s.flatMap units).flatMap (unitBytes bigEndian)) = Utf8.encode s := by
  have hlt : ∀ unit ∈ s.flatMap units, unit < 65536 := by
    intro unit hunit
    obtain ⟨c, -, hc⟩ := List.mem_flatMap.1 hunit
    exact units_lt hc
  simp [fromUtf16, unitsFrom_write bigEndian [] _ hlt, charsFrom_flatMap_units]

/-! ## Marks -/

theorem mark_append_detect (text : Bytes) : (detect text).1.mark ++ (detect text).2 = text := by
  unfold detect
  split <;> rfl

theorem detect_plain {text : Bytes} (h : ∀ e, e ≠ .plain → ¬ mark e <+: text) :
    detect text = (.plain, text) := by
  unfold detect
  split
  · exact absurd (List.prefix_append _ _) (h (.utf16 false) (by simp))
  · exact absurd (List.prefix_append _ _) (h (.utf16 true) (by simp))
  · exact absurd (List.prefix_append _ _) (h .marked (by simp))
  · rfl

/-- A text in UTF-8 does not begin with the mark of UTF-16, whose bytes are part of no character. It
begins with its own mark only if it begins with the character of the mark. -/
theorem detect_encode {s : List Char} (h : s.head? ≠ some '\uFEFF') :
    detect (Utf8.encode s) = (.plain, Utf8.encode s) := by
  have hstray : ∀ b more, Utf8.encode s = b :: more → Utf8.Letter.read b more ≠ .stray b := by
    intro b more hbytes hread
    have hdecode := Utf8.decode_encode s
    rw [hbytes, Utf8.decode_cons, hread] at hdecode
    cases s <;> simp at hdecode
  apply detect_plain
  rintro (_ | _ | (_ | _)) hne ⟨more, hmore⟩
  · exact hne rfl
  · -- Behind its mark the text would be read as that character first.
    have hmark : mark .marked = Utf8.encode ['\uFEFF'] := by decide
    have hdecode := Utf8.decode_encode s
    rw [← hmore, hmark, Utf8.decode_encode_append] at hdecode
    cases s with
    | nil => simp at hdecode
    | cons c s =>
      simp only [List.map_cons, List.map_nil, List.cons_append, List.cons.injEq,
        Utf8.Letter.char.injEq] at hdecode
      exact h (by rw [List.head?_cons, ← hdecode.1])
  · exact hstray _ _ hmore.symm rfl
  · exact hstray _ _ hmore.symm rfl

end Encoding

/-! ## Reading -/

namespace Input

theorem decode_write {e : Encoding} {s : List Char} (h : e.Suits s) :
    decode ⟨e.write s, none⟩ = ⟨Utf8.encode s, none⟩ := by
  have hdetect : Encoding.detect (e.write s) =
      (e, (e.write s).drop e.mark.length) := by
    rcases e with _ | _ | (_ | _)
    · exact Encoding.detect_encode h
    · rfl
    · rfl
    · rfl
  simp only [decode, Option.isSome_none, Bool.false_and, Bool.false_eq_true, if_false, hdetect]
  rcases e with _ | _ | (_ | _)
  · exact congrArg (Input.mk · none) (Utf8.mend_encode false s)
  · rfl
  · exact congrArg (Input.mk · none) (Encoding.fromUtf16_write false false s)
  · exact congrArg (Input.mk · none) (Encoding.fromUtf16_write true false s)

theorem failure_decode (i : Input) : i.decode.failure = i.failure := by
  unfold decode
  dsimp only
  split
  · rfl
  · split <;> rfl

theorem exists_decode_eq_encode {i : Input} (h : ¬ Encoding.mark .marked <+: i.text) :
    ∃ chars, i.decode.text = Utf8.encode chars := by
  unfold decode
  dsimp only
  split
  · exact ⟨[], rfl⟩
  · have hmark := Encoding.mark_append_detect i.text
    split
    · exact Utf8.exists_mend_eq_encode _ _
    · next text hdetect =>
      rw [hdetect] at hmark
      exact absurd ⟨text, hmark⟩ h
    · next bigEndian text _ =>
      -- A byte that is left over becomes one more replacement character.
      simp only [Encoding.fromUtf16]
      split
      · rw [Utf8.replacement_eq, ← Utf8.encode_append]
        exact ⟨_, rfl⟩
      · rw [List.append_nil]
        exact ⟨_, rfl⟩

end Input

/-! ## Rules in valid text -/

namespace Rules

theorem Points.ne_illegalEncoding {pos place : Position} {text : List Char} {rest : List Utf8.Letter}
    {fault : Fault} (h : Points pos (text.map .char) rest place fault) : fault ≠ .illegalEncoding := by
  obtain ⟨front, back, hread, -, hlies⟩ := h
  rintro rfl
  cases hlies with
  | @stray b =>
    have hmem : Utf8.Letter.stray b ∈ text.map Utf8.Letter.char := by simp [hread]
    simp at hmem

/-- In a text without a stray byte no call reports one, and none comes up later. -/
theorem Parser.next_legible {p : Parser} {chars : List Char} (hp : p.rest = chars.map .char) :
    (∃ left : List Char, p.next.2.rest = left.map .char) ∧
      ∀ e, p.next.1 = .fault e → e.fault ≠ .illegalEncoding := by
  obtain ⟨text, rest, s, t, hrest, hreads, hend⟩ := p.next_reads
  rw [hp, List.map_eq_append_iff] at hrest
  obtain ⟨-, left, -, -, hleft⟩ := hrest
  generalize p.next = result at hend
  cases hend with
  | close => exact ⟨⟨[], rfl⟩, fun e he => (hreads.close_points he).ne_illegalEncoding⟩
  | unreadable => exact ⟨⟨[], rfl⟩, fun e he => by cases he⟩
  | stray => cases left <;> simp at hleft
  | rule =>
    obtain ⟨c, left, -, -, hleft⟩ := List.map_eq_cons_iff.1 hleft
    exact ⟨⟨left, hleft.symm⟩, fun e he => by cases he⟩
  | fault hnext =>
    obtain ⟨c, left, -, -, hleft⟩ := List.map_eq_cons_iff.1 hleft
    refine ⟨⟨left, hleft.symm⟩, fun e he => ?_⟩
    cases he
    have hpoints : Points _ _ [] _ _ := hreads.next_points hnext
    exact hpoints.ne_illegalEncoding

theorem gather_legible {fuel : ℕ} {p : Parser} {code : Array Instruction} {chars : List Char}
    (hp : p.rest = chars.map .char) {report : Report Fault}
    (h : gather fuel p code = .error (.faults report)) : ∀ e ∈ report, e.fault ≠ .illegalEncoding := by
  induction fuel generalizing p code chars with
  | zero => cases h
  | succ fuel ih =>
    obtain ⟨⟨left, hleft⟩, hfault⟩ := Parser.next_legible hp
    unfold gather at h
    rcases hnext : p.next with ⟨item, q⟩
    rw [hnext] at h hleft hfault
    cases item with
    | done => cases h
    | readFailed cause => cases h
    | fault e =>
      cases h
      simpa using hfault e rfl
    | rule i =>
      simp only at h
      split at h
      · cases h
        simp
      · exact ih hleft h

theorem assemble_legible (name : Bytes) (chars : List Char) (failure : Option Bytes)
    {report : Report Fault} (h : assemble name (Utf8.encode chars) failure = .error (.faults report)) :
    ∀ e ∈ report, e.fault ≠ .illegalEncoding := by
  unfold assemble at h
  dsimp only at h
  split at h
  · next e hgather =>
    cases h
    exact gather_legible (Utf8.decode_encode chars) hgather
  · split at h <;> cases h

end Rules

/-! ## Sources -/

namespace Source

/-- The bytes that an argument stands for, before anything is made of their encoding: the standard
input, or a file, or the argument itself where no file can be opened. -/
inductive Presents (files : Files) (stdin : Input) : (arg : Bytes) → Input → Prop
  | stdin : Presents files stdin standardStream stdin
  | file {arg content : Bytes} (hname : arg ≠ standardStream)
      (hfile : files.openRead arg = .ok (.file content)) : Presents files stdin arg ⟨content, none⟩
  | literal {arg : Bytes} {e : FileError} (hname : arg ≠ standardStream) (hne : arg ≠ [])
      (hfile : files.openRead arg = .error e) : Presents files stdin arg ⟨arg, none⟩

theorem Presents.ofArgument {files : Files} {stdin i : Input} {arg : Bytes}
    (h : Presents files stdin arg i) :
    ∃ source, Source.ofArgument files stdin arg = .ok source ∧ source.input = i.decode := by
  unfold Source.ofArgument
  cases h with
  | stdin => exact ⟨_, if_pos rfl, rfl⟩
  | file hname hfile =>
    rw [if_neg hname, hfile]
    exact ⟨_, rfl, rfl⟩
  | literal hname hne hfile =>
    rw [if_neg hname, hfile]
    dsimp only
    rw [if_neg hne]
    exact ⟨_, rfl, rfl⟩

/-- The encoding of a text does not matter: in any two of them it is read as the same bytes, so its rules
make the same program, or fail in the same way at the same place. -/
theorem assemble_encoded {s : List Char} {e e' : Encoding} (he : e.Suits s) (he' : e'.Suits s)
    {files files' : Files} {stdin stdin' : Input} {arg arg' : Bytes}
    (h : Presents files stdin arg ⟨e.write s, none⟩)
    (h' : Presents files' stdin' arg' ⟨e'.write s, none⟩) :
    ∃ source source', ofArgument files stdin arg = .ok source ∧
      ofArgument files' stdin' arg' = .ok source' ∧
      source.input = ⟨Utf8.encode s, none⟩ ∧ source'.input = ⟨Utf8.encode s, none⟩ ∧
      ∀ name, Rules.assemble name source.input.text source.input.failure =
        Rules.assemble name source'.input.text source'.input.failure := by
  obtain ⟨source, hsource, hinput⟩ := h.ofArgument
  obtain ⟨source', hsource', hinput'⟩ := h'.ofArgument
  rw [Input.decode_write he] at hinput
  rw [Input.decode_write he'] at hinput'
  exact ⟨source, source', hsource, hsource', hinput, hinput', fun name => by rw [hinput, hinput']⟩

/-- A file in UTF-16 and the argument itself, with a character that takes two units of 16 bits. -/
theorem assemble_encoded_clef :
    let s := "INIT 𝄞 HALT ∀ L".toList
    let files : Files := { entries := [([utf8 "clef"], .file ((Encoding.utf16 true).write s))] }
    ∃ source source', ofArgument files ⟨[], none⟩ (utf8 "clef") = .ok source ∧
      ofArgument files ⟨[], none⟩ (Encoding.plain.write s) = .ok source' ∧
      ∀ name, Rules.assemble name source.input.text source.input.failure =
        Rules.assemble name source'.input.text source'.input.failure := by
  intro s files
  have hfile : Presents files ⟨[], none⟩ (utf8 "clef") ⟨(Encoding.utf16 true).write s, none⟩ :=
    .file (by decide) (by decide +kernel)
  have hliteral : Presents files ⟨[], none⟩ (Encoding.plain.write s) ⟨Encoding.plain.write s, none⟩ :=
    .literal (e := .notFound) (by decide +kernel) (by decide +kernel) (by decide +kernel)
  have hplain : Encoding.plain.Suits s := by simp [Encoding.Suits, s]
  have hutf16 : (Encoding.utf16 true).Suits s := trivial
  obtain ⟨source, source', hsource, hsource', -, -, hassemble⟩ :=
    assemble_encoded hutf16 hplain hfile hliteral
  exact ⟨source, source', hsource, hsource', hassemble⟩

/-- A text that does not begin with the mark of UTF-8 is read as valid text, whatever its bytes are and
whether it can be read to its end or not. No fault in it is an illegal encoding. -/
theorem legible_unmarked {files : Files} {stdin i : Input} {arg : Bytes}
    (h : Presents files stdin arg i) (hmark : ¬ Encoding.mark .marked <+: i.text) :
    ∃ source, ofArgument files stdin arg = .ok source ∧ Utf8.isValid source.input.text = true ∧
      source.input.failure = i.failure ∧
      ∀ name report, Rules.assemble name source.input.text source.input.failure =
        .error (.faults report) → ∀ e ∈ report, e.fault ≠ .illegalEncoding := by
  obtain ⟨source, hsource, hinput⟩ := h.ofArgument
  obtain ⟨chars, hchars⟩ := Input.exists_decode_eq_encode hmark
  refine ⟨source, hsource, ?_, ?_, fun name report hassemble => ?_⟩
  · rw [hinput, hchars, Utf8.isValid_encode]
  · rw [hinput, Input.failure_decode]
  · rw [hinput, hchars] at hassemble
    exact Rules.assemble_legible name chars _ hassemble

/-- Half a pair of surrogates and a byte that is left over. -/
theorem legible_unmarked_surrogate :
    let stdin : Input := ⟨[0xFF, 0xFE, 0x00, 0xD8, 0x41], none⟩
    ¬ Encoding.mark .marked <+: stdin.text ∧
      ∃ source, ofArgument {} stdin standardStream = .ok source ∧
        source.input.text = Utf8.encode ['\uFFFD', '\uFFFD'] ∧ Utf8.isValid source.input.text = true := by
  intro stdin
  have hmark : ¬ Encoding.mark .marked <+: stdin.text := by decide
  have hstdin : Presents {} stdin standardStream stdin := .stdin
  obtain ⟨source, hsource, hvalid, -, -⟩ := legible_unmarked hstdin hmark
  refine ⟨hmark, source, hsource, ?_, hvalid⟩
  cases hsource
  decide +kernel

end Source

end LogicMill
