import LogicMill.Proofs.Places
import Mathlib.Data.List.Count

/-! # Rule texts one after another

A text that consists of whole lines and of rules only can be put before any other text: the rules of
the first are read, and then the second is read as if it stood alone, from the table that the first
left, but for the places, which are further down.

* `Stage.relocate`, `Item.relocate`: the same stage, or item, with other places. The reader never looks
  at a place: `Stage.next_relocate`, `Stage.close_relocate`.
* `Parser.Relocated f p q`: the reader `q` stands like `p`, at another place. It goes on like `p`.
* `Parser.Extended more p q`: the reader `q` stands like `p`, with more letters to come. As long as `p`
  finds rules in whole lines, `q` finds the same rules.
* `Parser.results_append`: the results on two texts, one after the other.
-/

namespace LogicMill.Rules
set_option autoImplicit false

/-! ## Other places -/

/-- A place further down in a text, at the same column. -/
def Position.shift (bytes lines : ℕ) (p : Position) : Position :=
  { p with offset := p.offset + bytes, line := p.line + lines }

theorem Position.after_shift (bytes lines : ℕ) (p : Position) (x : Utf8.Letter) :
    (p.shift bytes lines).after x = (p.after x).shift bytes lines := by
  unfold after shift
  split <;> simp only [mk.injEq, true_and, and_true] <;> omega

def Token.relocate (f : Position → Position) (token : Token) : Token :=
  { token with start := f token.start }

@[simp] theorem Token.text_relocate (f : Position → Position) (token : Token) :
    (token.relocate f).text = token.text := rfl

/-- The stage with other places. -/
def Stage.relocate (f : Position → Position) : Stage → Stage
  | .inSource token => .inSource (token.relocate f)
  | .inRead source c start => .inRead source c (f start)
  | .inTarget source read token => .inTarget source read (token.relocate f)
  | .inWrite source read target c start => .inWrite source read target c (f start)
  | .inMove fields token => .inMove fields (token.relocate f)
  | .afterSlash rule start => .afterSlash rule (f start)
  | .beforeSource => .beforeSource
  | .beforeRead source => .beforeRead source
  | .beforeTarget source read => .beforeTarget source read
  | .beforeWrite source read target => .beforeWrite source read target
  | .beforeMove fields => .beforeMove fields
  | .afterMove rule => .afterMove rule
  | .inRemark rule => .inRemark rule
  | .inComment => .inComment

def Step.relocate (f : Position → Position) : Step → Step
  | .more stage table => .more (stage.relocate f) table
  | .rule i => .rule i
  | .fault pos what => .fault (f pos) what

/-- The item with another place. -/
def Item.relocate (f : Position → Position) : Item → Item
  | .rule i => .rule i
  | .fault e => .fault ⟨f e.pos, e.fault⟩
  | .readFailed cause => .readFailed cause
  | .done => .done

theorem internToken_relocate (f : Position → Position) (t : StateTable) (token : Token)
    {resume : ℕ → Stage} (h : ∀ id, (resume id).relocate f = resume id) :
    internToken t (token.relocate f) resume = (internToken t token resume).relocate f := by
  unfold internToken
  rw [Token.text_relocate]
  split
  · rw [Step.relocate, h]
  · rfl

theorem Stage.next_relocate (f : Position → Position) (t : StateTable) (pos : Position) (c : Char)
    (s : Stage) : (s.relocate f).next t (f pos) c = (s.next t pos c).relocate f := by
  cases s with
  | inSource token =>
    simp only [relocate, next, Token.relocate]
    split
    · exact internToken_relocate f t token fun _ => rfl
    · split
      · rfl
      · split <;> rfl
  | inTarget source read token =>
    simp only [relocate, next, Token.relocate]
    split
    · exact internToken_relocate f t token fun _ => rfl
    · split <;> rfl
  | inMove fields token =>
    simp only [relocate, next, Token.relocate, Token.push]
    split
    · split
      · rfl
      · split <;> rfl
    · split
      · rfl
      · split
        · rfl
        · split <;> rfl
  | afterMove rule =>
    simp only [relocate, next]
    split
    · rfl
    · split
      · rfl
      · split <;> rfl
  | _ =>
    simp only [relocate, next]
    split <;> rfl

theorem Stage.close_relocate (f : Position → Position) (pos : Position) (s : Stage) :
    (s.relocate f).close (f pos) = (s.close pos).relocate f := by
  cases s with
  | inMove fields token =>
    simp only [relocate, close, Token.relocate]
    split <;> rfl
  | _ => rfl

namespace Parser

/-- The reader `q` has the same text before it as `p` and the same table, at another place. -/
structure Relocated (f : Position → Position) (p q : Parser) : Prop where
  rest : q.rest = p.rest
  failure : p.failure = none ∧ q.failure = none
  pos : q.pos = f p.pos
  table : q.table = p.table

section Relocating

variable {f : Position → Position} {p q : Parser}

theorem scan_relocate (hf : ∀ p x, (f p).after x = f (p.after x)) (letters : List Utf8.Letter) :
    ∀ (s : Stage) (t : StateTable) (last last' pos : Position),
      (scan none (s.relocate f) t last' (f pos) letters).1 =
          (scan none s t last pos letters).1.relocate f ∧
        Relocated f (scan none s t last pos letters).2
          (scan none (s.relocate f) t last' (f pos) letters).2 := by
  induction letters with
  | nil =>
    intro s t last last' pos
    exact ⟨s.close_relocate f pos, rfl, ⟨rfl, rfl⟩, rfl, rfl⟩
  | cons x letters ih =>
    intro s t last last' pos
    cases x with
    | stray b => exact ⟨rfl, rfl, ⟨rfl, rfl⟩, hf pos (.stray b), rfl⟩
    | char c =>
      simp only [scan, Stage.next_relocate, hf]
      cases s.next t pos c with
      | more s t => exact ih s t pos (f pos) (pos.after (.char c))
      | rule i => exact ⟨rfl, rfl, ⟨rfl, rfl⟩, rfl, rfl⟩
      | fault place fault => exact ⟨rfl, rfl, ⟨rfl, rfl⟩, rfl, rfl⟩

theorem Relocated.next (hf : ∀ p x, (f p).after x = f (p.after x)) (h : Relocated f p q) :
    q.next.1 = p.next.1.relocate f ∧ Relocated f p.next.2 q.next.2 := by
  unfold Parser.next
  rw [h.failure.1, h.failure.2, h.rest, h.pos, h.table]
  exact scan_relocate hf p.rest .beforeSource p.table p.last q.last p.pos

theorem Relocated.after (hf : ∀ p x, (f p).after x = f (p.after x)) (h : Relocated f p q) (n : ℕ) :
    Relocated f (p.after n) (q.after n) := by
  induction n with
  | zero => exact h
  | succ n ih => exact (ih.next hf).2

theorem Relocated.result (hf : ∀ p x, (f p).after x = f (p.after x)) (h : Relocated f p q) (n : ℕ) :
    q.result n = (p.result n).relocate f := ((h.after hf n).next hf).1

end Relocating

end Parser

/-! ## Whole lines -/

/-- The letters end with a line, or there are none. -/
def WholeLines (letters : List Utf8.Letter) : Prop := ∀ x ∈ letters.getLast?, x = .char '\n'

theorem WholeLines.of_append {a b : List Utf8.Letter} (h : WholeLines (a ++ b)) : WholeLines b := by
  intro x hx
  have hne : b ≠ [] := List.ne_nil_of_mem (List.mem_of_getLast? hx)
  exact h x (by rwa [List.getLast?_append_of_ne_nil _ hne])

theorem not_wholeLines {front tail : List Char} (hne : tail ≠ []) (htail : '\n' ∉ tail) :
    ¬ WholeLines ((front ++ tail).map .char) := by
  intro h
  rw [List.map_append] at h
  have hlast := h.of_append (.char (tail.getLast hne)) (by simp [List.getLast?_eq_some_getLast hne])
  rw [Utf8.Letter.char.injEq] at hlast
  exact htail (hlast ▸ List.getLast_mem hne)

theorem LineEnd.noLineFeed {text : List Char} (h : LineEnd text) : '\n' ∉ text := by
  have hpadding {pad : List Char} (hpad : Padding pad) : '\n' ∉ pad := fun hmem => (hpad _ hmem).2 rfl
  rcases h with hpad | ⟨pad, body, hpad, hbody, rfl⟩
  · exact hpadding hpad
  · simp [hpadding hpad, hbody]

/-- A rule does not end with a line of its own: the line feed behind it is not part of it. -/
theorem Phrase.Written.not_wholeLines {g body : List Char} {phrase : Phrase}
    (h : Phrase.Written body phrase) : ¬ WholeLines ((g ++ body).map .char) := by
  obtain ⟨_, hmove, hending⟩ := h
  rw [← List.append_assoc]
  refine Rules.not_wholeLines (List.cons_ne_nil _ _)
    (List.not_mem_cons_of_ne_of_not_mem ?_ hending.noLineFeed)
  rintro rfl
  exact absurd hmove.notBlank (by decide)

theorem Closing.gap {text : List Char} (h : Closing text) (hlines : WholeLines (text.map .char)) :
    Gap text := by
  rcases h with hg | ⟨front, body, hg, hbody, rfl⟩
  · exact hg
  · exact absurd hlines (not_wholeLines (List.cons_ne_nil _ _) (by simpa))

theorem LineOf.chars {letters rest : List Utf8.Letter} {text : List Char} (h : LineOf letters text rest) :
    ∃ read : List Char, letters = read.map .char ++ rest := by
  rcases h with rfl | ⟨rfl, rfl⟩
  · exact ⟨_, rfl⟩
  · exact ⟨text, by simp⟩

/-! ## Texts that go on -/

namespace Parser

variable {p q : Parser} {more : List Utf8.Letter} {i : Instruction} {k : ℕ}

theorem next_of_done (hp : p.failure = none) (h : p.next.1 = .done) :
    ∃ text, Closing text ∧ p.rest = text.map .char ∧ p.next.2.rest = [] ∧
      p.next.2.table = p.table := by
  refine (next_done_iff hp).1 ⟨p.next.2.last, p.next.2.pos, Prod.ext h ?_⟩
  rw [← hp, ← next_failure p]

/-- A text in which only rules are found has no stray bytes. -/
theorem chars_of_rules (hp : p.failure = none) (hrules : ∀ n < k, ∃ i, p.result n = .rule i)
    (hdone : p.result k = .done) : ∃ chars : List Char, p.rest = chars.map .char := by
  induction k generalizing p with
  | zero =>
    obtain ⟨text, -, hrest, -⟩ := next_of_done hp hdone
    exact ⟨text, hrest⟩
  | succ k ih =>
    obtain ⟨i, hi⟩ : ∃ i, p.next.1 = .rule i := hrules 0 (Nat.zero_lt_succ k)
    obtain ⟨g, body, phrase, fields, -, -, -, -, hline⟩ := next_of_rule hi
    obtain ⟨read, hread⟩ := hline.chars
    have hrules' (n : ℕ) (hn : n < k) : ∃ i, p.next.2.result n = .rule i := by
      rw [← result_succ]
      exact hrules (n + 1) (Nat.succ_lt_succ hn)
    obtain ⟨chars, hchars⟩ := ih (by rw [next_failure, hp]) hrules' (by rwa [← result_succ])
    exact ⟨read ++ chars, by rw [hread, hchars, List.map_append]⟩

/-- The reader `q` has the same table as `p`, and more letters behind those of `p`. -/
structure Extended (more : List Utf8.Letter) (p q : Parser) : Prop where
  rest : q.rest = p.rest ++ more
  failure : p.failure = none ∧ q.failure = none
  table : q.table = p.table

/-- A rule that stands in whole lines is read in the same way whatever follows. -/
theorem Extended.next (h : Extended more p q) (hlines : WholeLines p.rest) (hi : p.next.1 = .rule i) :
    q.next.1 = .rule i ∧ Extended more p.next.2 q.next.2 ∧ WholeLines p.next.2.rest := by
  obtain ⟨g, body, phrase, fields, hg, hbody, hresolves, rfl, hline⟩ := next_of_rule hi
  rcases hline with hrest | ⟨hrest, -⟩
  · have hrest' : q.rest = (g ++ body ++ ['\n']).map .char ++ (p.next.2.rest ++ more) := by
      rw [h.rest, hrest, List.append_assoc]
    rw [← h.table] at hresolves
    obtain ⟨last, pos, hq⟩ := (next_rule_iff h.failure.2).2
      ⟨g, body, phrase, fields, hg, hbody, hresolves, rfl, .inl hrest'⟩
    rw [hq]
    rw [hrest] at hlines
    exact ⟨rfl, ⟨rfl, ⟨by rw [next_failure, h.failure.1], rfl⟩, rfl⟩, hlines.of_append⟩
  · rw [hrest] at hlines
    exact absurd hlines hbody.not_wholeLines

theorem Extended.after (h : Extended more p q) (hlines : WholeLines p.rest)
    (hrules : ∀ n < k, ∃ i, p.result n = .rule i) :
    Extended more (p.after k) (q.after k) ∧ WholeLines (p.after k).rest := by
  induction k with
  | zero => exact ⟨h, hlines⟩
  | succ k ih =>
    obtain ⟨hk, hlinesk⟩ := ih fun n hn => hrules n (Nat.lt_succ_of_lt hn)
    obtain ⟨i, hi⟩ := hrules k (Nat.lt_succ_self k)
    exact (hk.next hlinesk hi).2

theorem Extended.result (h : Extended more p q) (hlines : WholeLines p.rest)
    (hrules : ∀ n < k, ∃ i, p.result n = .rule i) {n : ℕ} (hn : n < k) : q.result n = p.result n := by
  obtain ⟨hn', hlinesn⟩ := h.after hlines fun m hm => hrules m (Nat.lt_trans hm hn)
  obtain ⟨i, hi⟩ := hrules n hn
  rw [hi]
  exact (hn'.next hlinesn hi).1

/-- Behind the rules of `p`, what is left of its text is a gap. -/
theorem Extended.gap (h : Extended more p q) (hlines : WholeLines p.rest)
    (hrules : ∀ n < k, ∃ i, p.result n = .rule i) (hdone : p.result k = .done) :
    ∃ g, Gap g ∧ (q.after k).rest = g.map .char ++ more ∧
      (q.after k).table = (p.after (k + 1)).table := by
  obtain ⟨hk, hlinesk⟩ := h.after hlines hrules
  obtain ⟨g, hclosing, hrest, -, htable⟩ := next_of_done hk.failure.1 hdone
  rw [hrest] at hlinesk
  exact ⟨g, hclosing.gap hlinesk, by rw [hk.rest, hrest], hk.table.trans htable.symm⟩

/-- A call skips a gap. -/
theorem next_of_gap {g : List Char} (hp : p.failure = none) (hg : Gap g)
    (hrest : p.rest = g.map .char ++ more) :
    ∃ last, p.next = (Parser.mk more none last (p.pos.past g) p.table).next := by
  have hwalk : Walks .beforeSource p.table p.pos g .beforeSource p.table := walks_gap hg
  obtain ⟨last, h⟩ := scan_of_walks hwalk none p.last more
  refine ⟨last, ?_⟩
  rw [Parser.next, hp, hrest, h]
  rfl

theorem after_of_next (h : p.next = q.next) (n : ℕ) : p.after (n + 1) = q.after (n + 1) := by
  induction n with
  | zero => rw [after_succ, after_succ, after_zero, after_zero, h]
  | succ n ih => rw [after_succ, ih, ← after_succ]

theorem result_of_next (h : p.next = q.next) (n : ℕ) : p.result n = q.result n := by
  cases n with
  | zero => rw [result_zero, result_zero, h]
  | succ n => rw [Parser.result, Parser.result, after_of_next h]

/-! ## Two texts -/

theorem wholeLines_decode {text : Bytes} {chars : List Char}
    (htext : Utf8.decode text = chars.map .char) (h : text = [] ∨ text.getLast? = some 0x0A) :
    WholeLines (Utf8.decode text) := by
  intro x hx
  rcases h with rfl | h
  · cases hx
  · rw [Utf8.decode_eq_map_char_iff.1 htext] at h
    rw [htext, List.getLast?_map, Utf8.getLast?_of_encode (by decide) h] at hx
    exact (Option.mem_some.1 hx).symm

/-- The place behind a text of whole lines is at the beginning of a line. -/
theorem behind_wholeLines (file : Bytes) {text : Bytes} {chars : List Char}
    (htext : Utf8.decode text = chars.map .char) (hlines : WholeLines (Utf8.decode text)) :
    Position.behind file (Utf8.decode text) =
      (Position.start file).shift text.length (text.count 0x0A) := by
  have hcount : (chars.map Utf8.Letter.char).count (.char '\n') = text.count 0x0A := by
    rw [Utf8.decode_eq_map_char_iff.1 htext, Utf8.count_lineFeed_encode]
    exact List.count_map_of_injective _ _ (fun _ _ => Utf8.Letter.char.inj) _
  have hcolumn : (Utf8.decode text).reverse.takeWhile (· ≠ .char '\n') = [] := by
    cases hreverse : (Utf8.decode text).reverse with
    | nil => rfl
    | cons x letters =>
      have hx : x = .char '\n' := hlines x (by rw [← List.head?_reverse, hreverse]; rfl)
      simp [hx]
  simp only [Position.behind, Position.shift, Position.start, Utf8.flatMap_bytes_decode, hcolumn]
  rw [htext, hcount]
  simp

/-- Reading is compositional over whole lines. If the first of two texts is empty or ends with a line
and gives `k` rules and nothing else, then the two texts together give these rules and after them what
the second gives by itself, from the table that the first left, also after faults. The faults of the
second are as many bytes and lines further down as the first has, in the same column, and the table is
always the same. -/
theorem results_append (file first second : Bytes) (table : StateTable) (k : ℕ)
    (hlines : first = [] ∨ first.getLast? = some 0x0A)
    (hrules : ∀ n < k, ∃ i, (start file first none table).result n = .rule i)
    (hdone : (start file first none table).result k = .done) :
    let front := start file first none table
    let back := start file second none (front.after (k + 1)).table
    let whole := start file (first ++ second) none table
    (∀ n < k, whole.result n = front.result n) ∧
    (∀ n, whole.result (k + n) =
      (back.result n).relocate (Position.shift first.length (first.count 0x0A))) ∧
    ∀ n, (whole.after (k + n)).table = (back.after n).table := by
  intro front back whole
  obtain ⟨chars, hchars⟩ : ∃ chars : List Char, Utf8.decode first = chars.map .char :=
    chars_of_rules (p := front) rfl hrules hdone
  have hletters : WholeLines (Utf8.decode first) := wholeLines_decode hchars hlines
  have hsplit : Utf8.decode (first ++ second) = Utf8.decode first ++ Utf8.decode second := by
    rw [hchars, Utf8.decode_eq_map_char_iff.1 hchars, Utf8.decode_encode_append]
  have hwhole : Extended (Utf8.decode second) front whole := ⟨hsplit, ⟨rfl, rfl⟩, rfl⟩
  refine ⟨fun n hn => hwhole.result hletters hrules hn, ?_⟩
  -- The call after the rules skips the gap that is left of the first text, and is then where `back`
  -- starts, but for the place.
  obtain ⟨g, hgap, hrest, htable⟩ := hwhole.gap hletters hrules hdone
  have hfailure : (whole.after k).failure = none := failure_after k
  obtain ⟨last, hnext⟩ := next_of_gap hfailure hgap hrest
  obtain ⟨before, hbefore, hpos⟩ := pos_after file (first ++ second) table k
  have hfirst : Utf8.decode first = before ++ g.map .char := by
    rw [hrest, hsplit, ← List.append_assoc] at hbefore
    exact List.append_cancel_right hbefore
  have hplace : (whole.after k).pos.past g =
      back.pos.shift first.length (first.count 0x0A) := by
    rw [hpos, ← Position.advance_map_char, Position.advance_behind, ← hfirst]
    exact behind_wholeLines file hchars hletters
  have hback : Relocated (Position.shift first.length (first.count 0x0A)) back
      ⟨Utf8.decode second, none, last, (whole.after k).pos.past g, (whole.after k).table⟩ :=
    ⟨rfl, ⟨rfl, rfl⟩, hplace, htable⟩
  have hshift := Position.after_shift first.length (first.count 0x0A)
  refine ⟨fun n => ?_, fun n => ?_⟩
  · rw [result_add, result_of_next hnext, hback.result hshift]
  · rw [after_add]
    cases n with
    | zero => exact hback.table
    | succ n => rw [after_of_next hnext, (hback.after hshift _).table]

/-- Comments and a rule over two lines, before a text with a fault in its first line. -/
theorem results_append_fault :
    let first := utf8 "// c\nINIT é\n A _ R // d\n \n//e\n"
    let second := utf8 "A é A xy L\nA _ HALT é R"
    first.getLast? = some 0x0A ∧
    (start [] first none .initial).result 0 = .rule ⟨0, .ofChar 'é', 2, .blank, .right⟩ ∧
    (start [] first none .initial).result 1 = .done ∧
    (start [] (first ++ second) none .initial).result 1 =
      .fault ⟨⟨[], 38, 6, 7⟩, .symbolTooLong (utf8 "xy")⟩ := by
  intro first second
  have hlines : first.getLast? = some 0x0A := by decide +kernel
  have hrule : (start [] first none .initial).result 0 = .rule ⟨0, .ofChar 'é', 2, .blank, .right⟩ := by
    decide +kernel
  have hdone : (start [] first none .initial).result 1 = .done := by decide +kernel
  have hrules (n : ℕ) (hn : n < 1) : ∃ i, (start [] first none .initial).result n = .rule i := by
    obtain rfl := Nat.lt_one_iff.1 hn
    exact ⟨_, hrule⟩
  have happend := results_append [] first second .initial 1 (.inr hlines) hrules hdone
  exact ⟨hlines, hrule, hdone, (happend.2.1 0).trans (by decide +kernel)⟩

end Parser

end LogicMill.Rules
