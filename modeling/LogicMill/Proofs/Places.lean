import LogicMill.Proofs.Calls

/-! # Where faults are

The reader counts bytes, lines and columns as it goes. After any number of calls its place is the one
that follows from the letters read so far, and the place of a fault is that of the letter that is at
fault or of the field to which it belongs, with the text that the fault quotes standing there.

* `Position.behind`: the place behind the first letters of a text, by counting them.
* `FieldStart`, `AfterMove`: what comes before a field, and before what follows a complete rule.
* `LiesAt front rest back fault`: a call that read `front` and `back` before `rest` may report `fault`
  at the place between the two.
* `Parser.fault_points`: every fault of a call lies so.
* `Parser.faults_located`: the same, and the place of the reader, after any number of calls.
-/

namespace LogicMill.Rules
set_option autoImplicit false

/-! ## Places by counting -/

namespace Position

/-- The place behind letters that stand at the beginning of a text. -/
def behind (file : Bytes) (letters : List Utf8.Letter) : Position where
  file
  offset := (letters.flatMap Utf8.Letter.bytes).length
  line := 1 + letters.count (.char '\n')
  column := 1 + (letters.reverse.takeWhile (· ≠ .char '\n')).length

theorem after_behind (file : Bytes) (letters : List Utf8.Letter) (x : Utf8.Letter) :
    (behind file letters).after x = behind file (letters ++ [x]) := by
  have hoffset : ((letters ++ [x]).flatMap Utf8.Letter.bytes).length =
      (letters.flatMap Utf8.Letter.bytes).length + x.size := by
    rw [List.flatMap_append, List.length_append, List.flatMap_singleton, Utf8.Letter.length_bytes]
  unfold after behind
  rw [hoffset]
  by_cases hx : x = .char '\n'
  · subst hx
    simp [Int.add_assoc]
  · rw [if_neg hx]
    simp [hx, Int.add_assoc]

theorem advance_behind (file : Bytes) (letters more : List Utf8.Letter) :
    (behind file letters).advance more = behind file (letters ++ more) := by
  induction more generalizing letters with
  | nil => rw [advance_nil, List.append_nil]
  | cons x more ih =>
    have h := ih (letters ++ [x])
    rwa [← after_behind, List.append_assoc] at h

end Position

/-! ## Faults and their places -/

/-- A field can begin behind this text: nothing was read yet, or white space was read last. -/
def FieldStart (text : List Char) : Prop := ∀ c ∈ text.getLast?, Text.isBlank c = true

/-- The text ends in a letter for a move, and white space on the same line. -/
def AfterMove (text : List Char) : Prop :=
  ∃ front letter move pad, text = front ++ letter :: pad ∧ MoveLetter letter move ∧ Padding pad ∧
    pad ≠ []

/-- A call read `front` and then `back`, before `rest`; the fault is reported at the place between
`front` and `back`. What the fault quotes is the field that begins there, up to the letter that shows
the fault or up to the end of the text. -/
inductive LiesAt (front : List Char) (rest : List Utf8.Letter) : List Utf8.Letter → Fault → Prop
  | stray {b : UInt8} : LiesAt front rest [.stray b] .illegalEncoding
  | ending (hrest : rest = []) : LiesAt front rest [] .missingToken
  | state {word : List Char} {c : Char} {cause : InternError} (hfront : FieldStart front)
      (hword : Field word) (hc : Text.isBlank c = true) :
      LiesAt front rest ((word ++ [c]).map .char) (.refusedState (Utf8.encode word) cause)
  | long {word : List Char} {c : Char} (hfront : FieldStart front) (hword : Field word)
      (hlen : word.length = maxNameLength) (hc : Text.isBlank c = false) :
      LiesAt front rest ((word ++ [c]).map .char) (.fieldTooLong (Utf8.encode word))
  | symbol {a c : Char} (hfront : FieldStart front) (ha : Text.isBlank a = false)
      (hc : Text.isBlank c = false) :
      LiesAt front rest ([a, c].map .char) (.symbolTooLong (Utf8.encode [a, c]))
  | move {word tail : List Char} (hfront : FieldStart front) (hword : Field word)
      (htail : (∃ c, Text.isBlank c = true ∧ tail = [c]) ∨ tail = ['/', '/'] ∨ tail = [] ∧ rest = []) :
      LiesAt front rest ((word ++ tail).map .char) (.badMove (Utf8.encode word))
  | letter {c : Char} (hfront : AfterMove front) (hc : Text.isBlank c = false) (hslash : c ≠ '/') :
      LiesAt front rest [.char c] (.unexpected (Utf8.encode [c]))
  | slash {tail : List Char} (hfront : AfterMove front)
      (htail : (∃ c, c ≠ '/' ∧ tail = [c]) ∨ tail = [] ∧ rest = []) :
      LiesAt front rest (('/' :: tail).map .char) (.unexpected (Utf8.encode ('/' :: tail)))

/-- The text that a fault quotes. -/
def Fault.token? : Fault → Option Bytes
  | .refusedState name _ => some name
  | .fieldTooLong token => some token
  | .symbolTooLong token => some token
  | .badMove token => some token
  | .unexpected token => some token
  | .illegalEncoding | .missingToken | .tooManyRules => none

theorem Fault.message_quotes {fault : Fault} {token : Bytes} (h : fault.token? = some token) :
    ∃ lead tail, fault.message = lead ++ token ++ tail := by
  cases fault with
  | refusedState name cause =>
    cases h
    exact ⟨utf8 "state ", utf8 ": " ++ cause.message, by simp [Fault.message]⟩
  | fieldTooLong token =>
    cases h
    exact ⟨utf8 "symbol is too long: ", utf8 ": " ++ Capacity.nameLength.message,
      by simp [Fault.message]⟩
  | symbolTooLong token =>
    cases h
    exact ⟨utf8 "symbol is too long: ", [], by simp [Fault.message]⟩
  | badMove token =>
    cases h
    exact ⟨utf8 "invalid move instruction ", [], by simp [Fault.message]⟩
  | unexpected token =>
    cases h
    exact ⟨utf8 "unexpected token: ", [], by simp [Fault.message]⟩
  | _ => cases h

theorem flatMap_bytes_map_char (text : List Char) :
    (text.map Utf8.Letter.char).flatMap Utf8.Letter.bytes = Utf8.encode text :=
  List.flatMap_map ..

/-- What a fault quotes is read from its place on. -/
theorem LiesAt.token_prefix {front : List Char} {rest back : List Utf8.Letter} {fault : Fault}
    {token : Bytes} (h : LiesAt front rest back fault) (htoken : fault.token? = some token) :
    token <+: back.flatMap Utf8.Letter.bytes := by
  have hquote (word tail : List Char) :
      Utf8.encode word <+: ((word ++ tail).map Utf8.Letter.char).flatMap Utf8.Letter.bytes := by
    rw [flatMap_bytes_map_char, Utf8.encode_append]
    exact List.prefix_append ..
  cases h with
  | stray | ending => cases htoken
  | state | long | move =>
    cases htoken
    exact hquote _ _
  | symbol =>
    cases htoken
    exact hquote _ []
  | letter =>
    cases htoken
    exact hquote [_] []
  | @slash tail =>
    cases htoken
    simpa using hquote ('/' :: tail) []

/-! ## Before a field -/

theorem FieldStart.append {text s : List Char} (hs : Spacing s) : FieldStart (text ++ s) := by
  intro c hc
  rw [List.getLast?_append_of_ne_nil _ hs.ne_nil] at hc
  exact hs.blank c (List.mem_of_getLast? hc)

theorem Gap.fieldStart {g : List Char} (h : Gap g) : FieldStart g := by
  induction h with
  | nil => simp [FieldStart]
  | @blank c rest hc _ ih =>
    intro d hd
    cases rest with
    | nil =>
      cases hd
      exact hc
    | cons e rest => exact ih d hd
  | @comment body rest _ _ ih =>
    intro d hd
    have hsplit : '/' :: '/' :: (body ++ '\n' :: rest) = ('/' :: '/' :: body) ++ '\n' :: rest := rfl
    rw [hsplit, List.getLast?_append_of_ne_nil _ (List.cons_ne_nil _ _)] at hd
    cases rest with
    | nil =>
      cases hd
      rfl
    | cons e rest => exact ih d hd

/-- The stages between two fields. -/
def Stage.Between : Stage → Prop
  | .beforeSource | .beforeRead _ | .beforeTarget _ _ | .beforeWrite _ _ _ | .beforeMove _ => True
  | _ => False

section Pointing

variable {t₀ t : StateTable} {pos₀ : Position} {text front w : List Char} {s : Stage} {c : Char}
  {place : Position} {fault : Fault} {rest : List Utf8.Letter}

theorem Reads.fieldStart (h : Reads t₀ pos₀ text t s) (hbetween : s.Between) : FieldStart text := by
  cases h with
  | gap hg => exact hg.fieldStart
  | beforeRead _ hs | beforeTarget _ hs | beforeWrite _ hs | beforeMove _ hs => exact .append hs
  | _ => exact absurd hbetween id

theorem Reads.ends_afterMove {rule : Instruction} (h : Reads t₀ pos₀ text t (.afterMove rule)) :
    AfterMove text := by
  cases h with
  | afterMove _ hmove hpad hne => exact ⟨_, _, _, _, rfl, hmove, hpad, hne⟩

/-! ## What a call reports -/

/-- A fault at `place`, reported by a call that began at `pos₀` and read `read` before `rest`. -/
def Points (pos₀ : Position) (read rest : List Utf8.Letter) (place : Position) (fault : Fault) : Prop :=
  ∃ front back, read = front.map .char ++ back ∧ place = pos₀.past front ∧ LiesAt front rest back fault

theorem points_intern {resume : ℕ → Stage} (hfront : FieldStart front) (hw : Field w)
    (hc : Text.isBlank c = true)
    (h : internToken t ⟨w, pos₀.past front⟩ resume = .fault place fault) :
    Points pos₀ ((front ++ w ++ [c]).map .char) rest place fault := by
  unfold internToken at h
  split at h
  · cases h
  · cases h
    exact ⟨front, _, by simp, rfl, .state hfront hw hc⟩

theorem points_long (hfront : FieldStart front) (hw : Field w) (hlen : maxNameLength ≤ w.length)
    (hc : Text.isBlank c = false) :
    Points pos₀ ((front ++ w ++ [c]).map .char) rest (pos₀.past front)
      (.fieldTooLong (Utf8.encode w)) :=
  ⟨front, _, by simp, rfl, .long hfront hw (Nat.le_antisymm hw.length_le hlen) hc⟩

theorem points_symbol {a : Char} (hfront : FieldStart front) (ha : Text.isBlank a = false)
    (hc : Text.isBlank c = false) :
    Points pos₀ ((front ++ [a] ++ [c]).map .char) rest (pos₀.past front)
      (.symbolTooLong (Utf8.encode [a, c])) :=
  ⟨front, _, by simp, rfl, .symbol hfront ha hc⟩

theorem points_inMove {fields : Fields} (hfront : FieldStart front) (hw : Field w)
    (h : (Stage.inMove fields ⟨w, pos₀.past front⟩).next t (pos₀.past (front ++ w)) c =
      .fault place fault) :
    Points pos₀ ((front ++ w ++ [c]).map .char) rest place fault := by
  simp only [Stage.next] at h
  split at h
  · next hc =>
    split at h
    · cases h
      exact ⟨front, _, by simp, rfl, .move hfront hw (.inl ⟨c, hc, rfl⟩)⟩
    · split at h <;> cases h
  · next hc =>
    split at h
    · next hlen =>
      cases h
      exact points_long hfront hw hlen (by simpa using hc)
    · split at h
      · cases h
      · next chars hremark =>
        split at h
        · cases h
          -- The field ends in two slashes, which are not quoted.
          obtain ⟨hne, heq⟩ := Token.beforeComment?_eq_some_iff.1 hremark
          have hchars : w ++ [c] = chars ++ ['/', '/'] := heq
          have hfield : Field chars := by
            refine ⟨hne, ?_, fun d hd => ?_⟩
            · have hlen := congrArg List.length hchars
              have := hw.length_le
              simp at hlen
              omega
            · have hmem : d ∈ w ++ [c] := by simp [hchars, hd]
              rcases List.mem_append.1 hmem with hd | hd
              · exact hw.notBlank d hd
              · rw [List.mem_singleton.1 hd]
                simpa using hc
          refine ⟨front, _, ?_, rfl, .move hfront hfield (.inr (.inl rfl))⟩
          rw [List.append_assoc, hchars, List.map_append]
        · cases h

/-- The fault that a letter shows. -/
theorem Reads.next_points (h : Reads t₀ pos₀ text t s)
    (hnext : s.next t (pos₀.past text) c = .fault place fault) :
    Points pos₀ ((text ++ [c]).map .char) rest place fault := by
  cases h with
  | gap | comment | beforeRead | beforeTarget | beforeWrite | beforeMove | inRemark | attached =>
    simp only [Stage.next] at hnext
    split at hnext <;> cases hnext
  | inSource hg hw =>
    simp only [Stage.next] at hnext
    split at hnext
    · next hc => exact points_intern hg.fieldStart hw.toField hc hnext
    · next hc =>
      split at hnext
      · next hlen =>
        cases hnext
        exact points_long hg.fieldStart hw.toField hlen (by simpa using hc)
      · split at hnext <;> cases hnext
  | inTarget h hw =>
    have hfront := h.fieldStart trivial
    simp only [Stage.next] at hnext
    split at hnext
    · next hc => exact points_intern hfront hw hc hnext
    · next hc =>
      split at hnext
      · next hlen =>
        cases hnext
        exact points_long hfront hw hlen (by simpa using hc)
      · cases hnext
  | inRead h ha | inWrite h ha =>
    simp only [Stage.next] at hnext
    split at hnext
    · cases hnext
    · next hc =>
      cases hnext
      exact points_symbol (h.fieldStart trivial) ha (by simpa using hc)
  | inMove h hw => exact points_inMove (h.fieldStart trivial) hw.toField hnext
  | afterMove h hmove hpad hne =>
    simp only [Stage.next] at hnext
    split at hnext
    · cases hnext
    · split at hnext
      · cases hnext
      · next hslash =>
        split at hnext
        · cases hnext
        · next hc =>
          cases hnext
          have hfront := Reads.ends_afterMove (.afterMove h hmove hpad hne)
          exact ⟨_, _, by simp, rfl, .letter hfront (by simpa using hc) hslash⟩
  | afterSlash h =>
    simp only [Stage.next] at hnext
    split at hnext
    · cases hnext
    · next hslash =>
      cases hnext
      exact ⟨_, _, by simp, rfl, .slash h.ends_afterMove (.inl ⟨c, hslash, rfl⟩)⟩

/-- The fault that the end of the text is. -/
theorem Reads.close_points {e : Located Fault} (h : Reads t₀ pos₀ text t s)
    (hclose : s.close (pos₀.past text) = .fault e) :
    Points pos₀ (text.map .char) [] e.pos e.fault := by
  cases h with
  | gap | comment | afterMove | inRemark | attached => cases hclose
  | inMove h hw =>
    simp only [Stage.close] at hclose
    split at hclose
    · cases hclose
    · cases hclose
      exact ⟨_, _, by simp, rfl, .move (h.fieldStart trivial) hw.toField (.inr (.inr ⟨rfl, rfl⟩))⟩
  | afterSlash h =>
    cases hclose
    exact ⟨_, _, by simp, rfl, .slash h.ends_afterMove (.inr ⟨rfl, rfl⟩)⟩
  | _ =>
    cases hclose
    exact ⟨_, [], by simp, rfl, .ending rfl⟩

end Pointing

namespace Parser

variable {p : Parser}

/-- Every fault of a call points into the letters that the call read. -/
theorem fault_points (hp : p.failure = none) {e : Located Fault} (h : p.next.1 = .fault e) :
    ∃ read, p.rest = read ++ p.next.2.rest ∧ Points p.pos read p.next.2.rest e.pos e.fault := by
  obtain ⟨text, rest, s, t, hrest, hreads, hend⟩ := next_cases hp
  rw [hrest]
  generalize p.next = result at hend h
  cases hend with
  | close => exact ⟨_, rfl, hreads.close_points h⟩
  | unreadable hfailure => cases hfailure
  | stray =>
    cases h
    exact ⟨text.map .char ++ [.stray _], by rw [List.append_assoc]; rfl, text, _, rfl, rfl, .stray⟩
  | rule => cases h
  | fault hnext =>
    cases h
    exact ⟨_, by simp, hreads.next_points hnext⟩

/-- The text from the place behind some of its letters on is that of the other letters. -/
theorem drop_behind {file text : Bytes} {before more : List Utf8.Letter}
    (h : Utf8.decode text = before ++ more) :
    text.drop (Position.behind file before).offset.toNat = more.flatMap Utf8.Letter.bytes := by
  have hbytes := Utf8.flatMap_bytes_decode text
  rw [h, List.flatMap_append] at hbytes
  rw [← hbytes]
  exact List.drop_left

/-- After any number of calls, the place of the reader is behind all letters read so far. -/
theorem pos_after (file text : Bytes) (table : StateTable) (n : ℕ) :
    ∃ before, Utf8.decode text = before ++ ((start file text none table).after n).rest ∧
      ((start file text none table).after n).pos = .behind file before := by
  induction n with
  | zero => exact ⟨[], rfl, rfl⟩
  | succ n ih =>
    obtain ⟨before, htext, hpos⟩ := ih
    obtain ⟨read, hrest, hpos'⟩ := next_rest (p := (start file text none table).after n) (by simp [start])
    refine ⟨before ++ read, ?_, ?_⟩
    · rw [List.append_assoc, after_succ, ← hrest, htext]
    · rw [after_succ, hpos', hpos, Position.advance_behind]

/-- Every place is right, over any number of calls, also after faults. The place of the reader is behind
the letters read so far. A fault is at a place between letters that its call read: at a stray byte, at
the end of the text, at the letter that must not follow a rule, or at the beginning of the field, or
comment, that is at fault. What it quotes is the text from there on. -/
theorem faults_located (file text : Bytes) (table : StateTable) (n : ℕ) :
    let p := start file text none table
    ∃ before read, Utf8.decode text = before ++ (p.after n).rest ∧
      (p.after n).rest = read ++ (p.after (n + 1)).rest ∧
      (p.after n).pos = .behind file before ∧
      (p.after (n + 1)).pos = .behind file (before ++ read) ∧
      ∀ e, p.result n = .fault e →
        (∃ front back, read = front.map .char ++ back ∧
          e.pos = .behind file (before ++ front.map .char) ∧
          LiesAt front (p.after (n + 1)).rest back e.fault) ∧
        ∀ token, e.fault.token? = some token →
          (∃ lead tail, e.fault.message = lead ++ token ++ tail) ∧
          token <+: text.drop e.pos.offset.toNat := by
  intro p
  have hp : (p.after n).failure = none := by simp [p, start]
  obtain ⟨before, htext, hpos⟩ := pos_after file text table n
  obtain ⟨read, hrest, hpos'⟩ := next_rest hp
  refine ⟨before, read, htext, hrest, hpos, ?_, fun e he => ?_⟩
  · rw [after_succ, hpos', hpos, Position.advance_behind]
  · obtain ⟨read', hrest', front, back, hread, hplace, hlies⟩ := fault_points hp he
    obtain rfl : read = read' := List.append_cancel_right (hrest.symm.trans hrest')
    have hpos : e.pos = .behind file (before ++ front.map .char) := by
      rw [hplace, hpos, ← Position.advance_map_char, Position.advance_behind]
    refine ⟨⟨front, back, hread, hpos, hlies⟩, fun token htoken => ⟨Fault.message_quotes htoken, ?_⟩⟩
    have hsplit : Utf8.decode text =
        before ++ front.map .char ++ (back ++ (p.after (n + 1)).rest) := by
      rw [htext, hrest, hread]
      simp [after_succ]
    rw [hpos, drop_behind hsplit, List.flatMap_append]
    exact (hlies.token_prefix htoken).trans (List.prefix_append ..)

/-- The first call ends at a stray byte; the second finds a long symbol on the next line. -/
example : (start [] (utf8 "é" ++ 0xFF :: utf8 " b\nc d eé L") none .initial).result 1 =
    .fault ⟨⟨[], 10, 2, 5⟩, .symbolTooLong (utf8 "eé")⟩ := by
  decide +kernel

end Parser

end LogicMill.Rules
