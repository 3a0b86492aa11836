import LogicMill.Proofs.Concatenation

/-! # Line ends

A line of rule text may end with a line feed, or with a carriage return and a line feed. The carriage return is
white space: it ends a field one character earlier, and the line feed then finds the reader in another stage, but
what the two lead to is what the line feed alone leads to.

* `markBefore`, `Text.withReturns`, `returned`: a carriage return before every line feed, in bytes and in letters.
* `Stage.Alike`: stages that differ in places only, which no step looks at.
* `Stage.next_return`: a carriage return and a line feed, compared with the line feed.
* `Parser.Tallies`: what two calls have in common, on a text with and without carriage returns.
  `Parser.scan_returned` is about the characters of one call, `gather_returned` about all calls.
* `assemble_withReturns`: the program of a text with either line end.
-/

namespace LogicMill
set_option autoImplicit false

/-! ## Texts -/

section MarkBefore

variable {α : Type} [DecidableEq α] {mark x : α} {l : List α}

/-- The list with `mark` before every occurrence of `x`. -/
def markBefore (mark x : α) (l : List α) : List α := l.flatMap fun a => if a = x then [mark, x] else [a]

theorem markBefore_append (a b : List α) :
    markBefore mark x (a ++ b) = markBefore mark x a ++ markBefore mark x b := List.flatMap_append

theorem markBefore_cons_self : markBefore mark x (x :: l) = mark :: x :: markBefore mark x l := by
  simp [markBefore]

theorem markBefore_cons_of_ne {a : α} (h : a ≠ x) : markBefore mark x (a :: l) = a :: markBefore mark x l := by
  simp [markBefore, h]

theorem markBefore_of_notMem (h : x ∉ l) : markBefore mark x l = l := by
  induction l with
  | nil => rfl
  | cons a l ih =>
    rw [List.mem_cons, not_or] at h
    rw [markBefore_cons_of_ne (Ne.symm h.1), ih h.2]

end MarkBefore

/-- The text with a carriage return before every line feed. -/
def Text.withReturns (text : Bytes) : Bytes := markBefore 0x0D 0x0A text

namespace Rules

def returned (letters : List Utf8.Letter) : List Utf8.Letter := markBefore (.char '\r') (.char '\n') letters

theorem decode_feed (text : Bytes) : Utf8.decode (0x0A :: text) = .char '\n' :: Utf8.decode text :=
  Utf8.decode_encode_append ['\n'] text

theorem decode_return (text : Bytes) : Utf8.decode (0x0D :: text) = .char '\r' :: Utf8.decode text :=
  Utf8.decode_encode_append ['\r'] text

theorem feed_notMem_decode {text : Bytes} (h : 0x0A ∉ text) : Utf8.Letter.char '\n' ∉ Utf8.decode text := by
  intro hmem
  rw [← Utf8.flatMap_bytes_decode text, List.mem_flatMap] at h
  exact h ⟨_, hmem, by decide⟩

theorem decode_withReturns (text : Bytes) :
    Utf8.decode (Text.withReturns text) = returned (Utf8.decode text) := by
  induction hn : text.length using Nat.strong_induction_on generalizing text with
  | _ n ih =>
    by_cases hfeed : 0x0A ∈ text
    · obtain ⟨line, more, rfl, hline⟩ := List.eq_append_cons_of_mem hfeed
      have hmore := ih more.length (by rw [← hn, List.length_append, List.length_cons]; omega) more rfl
      have htext : Text.withReturns (line ++ 0x0A :: more) = line ++ 0x0D :: 0x0A :: Text.withReturns more := by
        rw [Text.withReturns, markBefore_append, markBefore_of_notMem hline, markBefore_cons_self]
        rfl
      rw [htext, Utf8.decode_append_ascii (by decide), Utf8.decode_append_ascii (by decide),
        decode_return, decode_feed, decode_feed, hmore, returned, returned, markBefore_append,
        markBefore_of_notMem (feed_notMem_decode hline), markBefore_cons_self]
    · rw [Text.withReturns, markBefore_of_notMem hfeed, returned,
        markBefore_of_notMem (feed_notMem_decode hfeed)]

/-! ## Stages -/

/-- The place that stands for any place. -/
def nowhere (_ : Position) : Position := .start []

/-- The two stages differ in places only. -/
def Stage.Alike (s s' : Stage) : Prop := s.relocate nowhere = s'.relocate nowhere

theorem Stage.Alike.next {s s' : Stage} (h : s.Alike s') (t : StateTable) (pos pos' : Position) (c : Char) :
    (s.next t pos c).relocate nowhere = (s'.next t pos' c).relocate nowhere := by
  rw [← next_relocate, ← next_relocate, h]
  rfl

theorem Step.cases_of_relocate {a b : Step} (h : a.relocate nowhere = b.relocate nowhere) :
    (∃ s s' t, a = .more s t ∧ b = .more s' t ∧ s.Alike s') ∨ (∃ i, a = .rule i ∧ b = .rule i) ∨
      (∃ p f, a = .fault p f) ∧ ∃ p f, b = .fault p f := by
  cases a with
  | more s t =>
    cases b with
    | more s' t' =>
      obtain ⟨hs, rfl⟩ := Step.more.inj h
      exact .inl ⟨s, s', t, rfl, rfl, hs⟩
    | rule | fault => cases h
  | rule i =>
    cases b with
    | rule i' =>
      cases h
      exact .inr (.inl ⟨i, rfl, rfl⟩)
    | more | fault => cases h
  | fault p f =>
    cases b with
    | fault p' f' => exact .inr (.inr ⟨⟨p, f, rfl⟩, p', f', rfl⟩)
    | more | rule => cases h

theorem Stage.Alike.close {s s' : Stage} (h : s.Alike s') (pos pos' : Position) :
    (s.close pos).relocate nowhere = (s'.close pos').relocate nowhere := by
  rw [← close_relocate, ← close_relocate, h]
  rfl

/-- What a carriage return and a line feed do: the carriage return is a fault where the line feed is one, and
otherwise the line feed after it does what it would have done at once. A rule is never complete after a step that
gives a name to the table. -/
theorem Stage.next_return (s : Stage) (t : StateTable) (pos pos' : Position) :
    ((∃ p f, s.next t pos '\r' = .fault p f) ∧ ∃ p f, s.next t pos '\n' = .fault p f) ∨
    ∃ s₁ t₁, s.next t pos '\r' = .more s₁ t₁ ∧ s₁.next t₁ pos' '\n' = s.next t pos '\n' ∧
      ∀ i, s.next t pos '\n' = .rule i → t₁ = t := by
  have hreturn : Text.isBlank '\r' = true := rfl
  have hfeed : Text.isBlank '\n' = true := rfl
  cases s with
  | inSource token =>
    simp only [next, hreturn, hfeed, if_true, internToken]
    cases t.intern token.text with
    | error e => exact .inl ⟨⟨_, _, rfl⟩, _, _, rfl⟩
    | ok entry => exact .inr ⟨_, _, rfl, rfl, fun _ h => by cases h⟩
  | inTarget source read token =>
    simp only [next, hreturn, hfeed, if_true, internToken]
    cases t.intern token.text with
    | error e => exact .inl ⟨⟨_, _, rfl⟩, _, _, rfl⟩
    | ok entry => exact .inr ⟨_, _, rfl, rfl, fun _ h => by cases h⟩
  | inMove fields token =>
    simp only [next, hreturn, hfeed, if_true]
    cases Token.move? token.chars with
    | none => exact .inl ⟨⟨_, _, rfl⟩, _, _, rfl⟩
    | some m => exact .inr ⟨_, _, rfl, rfl, fun _ _ => rfl⟩
  | afterSlash rule start => exact .inl ⟨⟨_, _, rfl⟩, _, _, rfl⟩
  | _ => exact .inr ⟨_, _, rfl, rfl, fun _ _ => rfl⟩

/-! ## Calls -/

namespace Parser

/-- The reader `q` has the same text before it as `p`, with carriage returns, and the same table. -/
structure Returned (p q : Parser) : Prop where
  rest : q.rest = returned p.rest
  failure : p.failure = none ∧ q.failure = none
  table : q.table = p.table

/-- The two calls return the same rule and leave the same, or both find the end, or both find a fault. -/
inductive Tallies : Item × Parser → Item × Parser → Prop
  | rule {i : Instruction} {p q : Parser} (h : Returned p q) : Tallies (.rule i, p) (.rule i, q)
  | done {p q : Parser} (h : Returned p q) : Tallies (.done, p) (.done, q)
  | fault {e e' : Located Fault} {p q : Parser} : Tallies (.fault e, p) (.fault e', q)

theorem Tallies.of_close {s s' : Stage} {pos pos' : Position} {p q : Parser} (hs : s.Alike s')
    (h : Returned p q) : Tallies (s.close pos, p) (s'.close pos', q) := by
  have hclose := hs.close pos pos'
  have hread (cause : Bytes) : s.close pos ≠ .readFailed cause := close_ne_readFailed
  generalize s.close pos = item at hclose hread
  generalize s'.close pos' = item' at hclose
  cases item with
  | rule i =>
    cases item' with
    | rule i' =>
      cases hclose
      exact .rule h
    | fault | readFailed | done => cases hclose
  | fault e =>
    cases item' with
    | fault e' => exact .fault
    | rule | readFailed | done => cases hclose
  | done =>
    cases item' with
    | done => exact .done h
    | rule | fault | readFailed => cases hclose
  | readFailed cause => exact absurd rfl (hread cause)

/-- Reading on from stages that differ in places only, on a text without and with carriage returns. -/
theorem scan_returned (letters : List Utf8.Letter) {s s' : Stage} (hs : s.Alike s') (t : StateTable)
    (last last' pos pos' : Position) :
    Tallies (scan none s t last pos letters) (scan none s' t last' pos' (returned letters)) := by
  induction letters generalizing s s' t last last' pos pos' with
  | nil => exact .of_close hs ⟨rfl, ⟨rfl, rfl⟩, rfl⟩
  | cons x letters ih =>
    by_cases hx : x = .char '\n'
    · subst hx
      have hreturned : returned (.char '\n' :: letters) = .char '\r' :: .char '\n' :: returned letters :=
        markBefore_cons_self
      have hfeed := Step.cases_of_relocate (hs.next t pos pos' '\n')
      rw [hreturned]
      rcases s'.next_return t pos' (pos'.after (.char '\r')) with
        ⟨⟨p, f, hreturn⟩, p', f', hfault⟩ | ⟨s₁, t₁, hreturn, hnext, htable⟩
      · rw [hfault] at hfeed
        obtain ⟨_, _, _, _, hmore, _⟩ | ⟨_, _, hrule⟩ | ⟨⟨_, _, hfault⟩, _⟩ := hfeed
        · cases hmore
        · cases hrule
        · simp only [scan, hreturn, hfault]
          exact .fault
      · rw [← hnext] at hfeed htable
        simp only [scan, hreturn]
        obtain ⟨s₂, s₂', t₂, h, h', hs₂⟩ | ⟨i, h, h'⟩ | ⟨⟨p, f, h⟩, p', f', h'⟩ := hfeed
        · simp only [h, h']
          exact ih hs₂ t₂ _ _ _ _
        · obtain rfl := htable i h'
          simp only [h, h']
          exact .rule ⟨rfl, ⟨rfl, rfl⟩, rfl⟩
        · simp only [h, h']
          exact .fault
    · have hreturned : returned (x :: letters) = x :: returned letters := markBefore_cons_of_ne hx
      rw [hreturned]
      cases x with
      | stray b => exact .fault
      | char c =>
        simp only [scan]
        obtain ⟨s₂, s₂', t₂, h, h', hs₂⟩ | ⟨i, h, h'⟩ | ⟨⟨p, f, h⟩, p', f', h'⟩ :=
          Step.cases_of_relocate (hs.next t pos pos' c)
        · simp only [h, h']
          exact ih hs₂ t₂ _ _ _ _
        · simp only [h, h']
          exact .rule ⟨rfl, ⟨rfl, rfl⟩, rfl⟩
        · simp only [h, h']
          exact .fault

theorem Returned.next {p q : Parser} (h : Returned p q) : Tallies p.next q.next := by
  unfold Parser.next
  rw [h.failure.1, h.failure.2, h.rest, h.table]
  exact scan_returned p.rest rfl p.table p.last q.last p.pos q.pos

end Parser

/-! ## All calls -/

theorem gather_returned {p q : Parser} {fuel fuel' : ℕ} (h : Parser.Returned p q) (hfuel : p.rest.length < fuel)
    (hfuel' : q.rest.length < fuel') (code : Array Instruction) :
    (gather fuel' q code).toOption = (gather fuel p code).toOption := by
  induction fuel generalizing fuel' p q code with
  | zero => exact absurd hfuel (Nat.not_lt_zero _)
  | succ fuel ih =>
    obtain ⟨fuel', rfl⟩ := Nat.exists_eq_add_one_of_ne_zero (Nat.ne_zero_of_lt hfuel')
    have hlt := Parser.length_next_lt h.failure.1
    have hlt' := Parser.length_next_lt h.failure.2
    have htallies := h.next
    unfold gather
    generalize p.next = result at hlt htallies
    generalize q.next = result' at hlt' htallies
    cases htallies with
    | rule h =>
      have hless := Nat.lt_of_lt_of_le (hlt (by simp)) (Nat.le_of_lt_succ hfuel)
      have hless' := Nat.lt_of_lt_of_le (hlt' (by simp)) (Nat.le_of_lt_succ hfuel')
      dsimp only
      split
      · rfl
      · exact ih h hless hless' _
    | done h =>
      dsimp only
      rw [h.table]
    | fault => rfl

/-- A text makes a program exactly when it does so with a carriage return before every line feed, and the program
is the same. -/
theorem assemble_withReturns (file file' text : Bytes) (program : Program) :
    assemble file' (Text.withReturns text) none = .ok program ↔ assemble file text none = .ok program := by
  have hstart : Parser.Returned (.start file text none .initial)
      (.start file' (Text.withReturns text) none .initial) :=
    ⟨decode_withReturns text, ⟨rfl, rfl⟩, rfl⟩
  have hgather := gather_returned hstart (Nat.lt_succ_self _) (Nat.lt_succ_self _) #[]
  unfold assemble
  dsimp only
  generalize gather _ (Parser.start file text none .initial) #[] = result at hgather ⊢
  generalize gather _ (Parser.start file' (Text.withReturns text) none .initial) #[] = result' at hgather ⊢
  cases result with
  | error e =>
    cases result' with
    | error e' => exact ⟨nofun, nofun⟩
    | ok gathered => cases hgather
  | ok gathered =>
    cases result' with
    | error e' => cases hgather
    | ok gathered' =>
      obtain rfl : gathered' = gathered := Option.some.inj hgather
      rfl

end Rules

end LogicMill
