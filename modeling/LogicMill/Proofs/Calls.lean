import LogicMill.Proofs.Assembly

/-! # Calls of the rule reader, one after another

The reader is called again and again, also after faults. Each call reads the letters from where the
last one stopped, and a call that finds a rule or a fault has read at least one letter; so the text is
used up, and from then on there is nothing more to be read.

* `Parser.after`, `Parser.result`, `Parser.stretch`: the reader after a number of calls, what a call
  returns, and the letters that it reads.
* `Parser.next_reads`, `Parser.next_cases`: how one call goes, in terms of the stages that it passes;
  `Parser.next_of_rule`: what it has read if it returns a rule.
* `Parser.next_rest`, `Parser.length_next_lt`: what one call leaves of the text.
* `Parser.results_exhaust`: the calls read the whole text, letter by letter, and then only say so.
-/

namespace LogicMill.Rules
set_option autoImplicit false

/-! ## Places -/

namespace Position

/-- The place behind letters that stand here. -/
def advance (p : Position) (letters : List Utf8.Letter) : Position := letters.foldl Position.after p

@[simp] theorem advance_nil (p : Position) : p.advance [] = p := rfl

theorem advance_append (p : Position) (a b : List Utf8.Letter) :
    p.advance (a ++ b) = (p.advance a).advance b := List.foldl_append

theorem advance_concat (p : Position) (letters : List Utf8.Letter) (x : Utf8.Letter) :
    p.advance (letters ++ [x]) = (p.advance letters).after x := advance_append ..

theorem advance_map_char (p : Position) (text : List Char) :
    p.advance (text.map .char) = p.past text := List.foldl_map

end Position

/-! ## Calls -/

namespace Parser

/-- The reader after a number of calls. -/
def after (p : Parser) : ℕ → Parser
  | 0 => p
  | n + 1 => (p.after n).next.2

/-- What a call returns. The first call has number 0. -/
def result (p : Parser) (n : ℕ) : Item := (p.after n).next.1

/-- The letters that a call reads: those that were left before it and are not left after it. -/
def stretch (p : Parser) (n : ℕ) : List Utf8.Letter :=
  (p.after n).rest.take ((p.after n).rest.length - (p.after (n + 1)).rest.length)

variable {p q : Parser}

@[simp] theorem after_zero : p.after 0 = p := rfl

theorem after_succ (n : ℕ) : p.after (n + 1) = (p.after n).next.2 := rfl

theorem after_add (m n : ℕ) : p.after (m + n) = (p.after m).after n := by
  induction n with
  | zero => rfl
  | succ n ih => rw [← Nat.add_assoc, after_succ, after_succ, ih]

theorem result_zero : p.result 0 = p.next.1 := rfl

theorem result_add (m n : ℕ) : p.result (m + n) = (p.after m).result n := by
  rw [result, result, after_add]

theorem result_succ (n : ℕ) : p.result (n + 1) = p.next.2.result n := by
  rw [Nat.add_comm, result_add, after_succ, after_zero]

@[simp] theorem failure_after (n : ℕ) : (p.after n).failure = p.failure := by
  induction n with
  | zero => rfl
  | succ n ih => rw [after_succ, next_failure, ih]

/-! ## One call -/

/-- A call reads a text that leads to some stage, where a letter or the end of the text ends it. -/
theorem next_reads (p : Parser) :
    ∃ text rest s t, p.rest = text.map .char ++ rest ∧ Reads p.table p.pos text t s ∧
      Ends p.failure s t (p.pos.past text) rest p.next := by
  obtain ⟨text, rest, s, t, hrest, hwalk, hend⟩ :=
    scan_cases p.failure .beforeSource p.table p.last p.pos p.rest
  exact ⟨text, rest, s, t, hrest, reads_iff_walks.2 hwalk, hend⟩

theorem next_cases (hp : p.failure = none) :
    ∃ text rest s t, p.rest = text.map .char ++ rest ∧ Reads p.table p.pos text t s ∧
      Ends none s t (p.pos.past text) rest p.next := by
  have h := p.next_reads
  rwa [hp] at h

/-- A call that returns a rule reads a gap and the rule, also where the text cannot be read to its end. -/
theorem next_of_rule {i : Instruction} (h : p.next.1 = .rule i) :
    ∃ g body phrase fields, Gap g ∧ Phrase.Written body phrase ∧
      phrase.Resolves p.table fields p.next.2.table ∧ i = fields.rule phrase.move ∧
      LineOf p.rest (g ++ body) p.next.2.rest := by
  obtain ⟨text, rest, s, t, hrest, hreads, hend⟩ := p.next_reads
  rw [hrest]
  generalize p.next = result at hend h ⊢
  cases hend with
  | close =>
    obtain ⟨g, body, phrase, fields, hg, hbody, rfl, hresolves, hi⟩ :=
      reads_completes_iff.1 ⟨s, hreads, close_eq_rule_iff.1 h⟩
    exact ⟨g, body, phrase, fields, hg, hbody, hresolves, hi, .inr ⟨by simp, rfl⟩⟩
  | rule hnext =>
    cases h
    obtain ⟨rfl, hcompletes⟩ := next_eq_rule_iff.1 hnext
    obtain ⟨g, body, phrase, fields, hg, hbody, rfl, hresolves, hi⟩ :=
      reads_completes_iff.1 ⟨s, hreads, hcompletes⟩
    exact ⟨g, body, phrase, fields, hg, hbody, hresolves, hi, .inl (by simp)⟩
  | unreadable | stray | fault => cases h

theorem close_ne_readFailed {s : Stage} {pos : Position} {cause : Bytes} :
    s.close pos ≠ .readFailed cause := by
  cases s with
  | inMove fields token =>
    simp only [Stage.close]
    split <;> simp
  | _ => simp [Stage.close]

theorem next_ne_readFailed (hp : p.failure = none) (cause : Bytes) : p.next.1 ≠ .readFailed cause := by
  obtain ⟨text, rest, s, t, -, -, hend⟩ := next_cases hp
  generalize p.next = result at hend
  cases hend with
  | close => exact close_ne_readFailed
  | unreadable hfailure => cases hfailure
  | _ => simp

/-- What is left after a call is the end of what was left before it, and the reader is at the place
behind the letters in between. -/
theorem next_rest (hp : p.failure = none) :
    ∃ read, p.rest = read ++ p.next.2.rest ∧ p.next.2.pos = p.pos.advance read := by
  obtain ⟨text, rest, s, t, hrest, -, hend⟩ := next_cases hp
  rw [hrest]
  generalize p.next = result at hend
  -- Besides the walk there is at most one letter, the one that ends the call.
  have hlast (x : Utf8.Letter) (rest : List Utf8.Letter) :
      text.map .char ++ x :: rest = (text.map .char ++ [x]) ++ rest ∧
        (p.pos.past text).after x = p.pos.advance (text.map .char ++ [x]) := by
    rw [Position.advance_concat, Position.advance_map_char]
    simp
  cases hend with
  | close => exact ⟨text.map .char, rfl, (Position.advance_map_char ..).symm⟩
  | unreadable => exact ⟨text.map .char, rfl, (Position.advance_map_char ..).symm⟩
  | stray => exact ⟨_, hlast _ _⟩
  | rule => exact ⟨_, hlast _ _⟩
  | fault => exact ⟨_, hlast _ _⟩

/-- A call that does not come to the end of all rules reads a letter. The end of the text is a fault,
or the end of a rule, only in a stage that lies behind the first letter. -/
theorem length_next_lt (hp : p.failure = none) (h : p.next.1 ≠ .done) :
    p.next.2.rest.length < p.rest.length := by
  obtain ⟨text, rest, s, t, hrest, hreads, hend⟩ := next_cases hp
  rw [hrest]
  generalize p.next = result at hend h
  cases hend with
  | close =>
    cases text with
    | nil =>
      obtain ⟨rfl, rfl⟩ := reads_iff_walks.1 hreads
      exact absurd rfl h
    | cons c text => simp
  | unreadable hfailure => cases hfailure
  | stray => simp; omega
  | rule => simp; omega
  | fault => simp; omega

/-- Where a call comes to the end of all rules, nothing is left. -/
theorem rest_of_done (hp : p.failure = none) (h : p.next.1 = .done) : p.next.2.rest = [] := by
  obtain ⟨text, rest, s, t, -, -, hend⟩ := next_cases hp
  generalize p.next = result at hend h
  cases hend with
  | close => rfl
  | unreadable => rfl
  | stray => cases h
  | rule => cases h
  | fault => cases h

theorem done_of_rest (hp : p.failure = none) (h : p.rest = []) : p.next.1 = .done := by
  by_contra hne
  have := length_next_lt hp hne
  rw [h] at this
  exact absurd this (Nat.not_lt_zero _)

/-! ## All calls -/

theorem rest_eq_stretch (hp : p.failure = none) (n : ℕ) :
    (p.after n).rest = p.stretch n ++ (p.after (n + 1)).rest := by
  obtain ⟨read, hread, -⟩ := next_rest (p := p.after n) (by rw [failure_after, hp])
  rw [← after_succ] at hread
  have hlen : (p.after n).rest.length - (p.after (n + 1)).rest.length = read.length := by
    rw [hread, List.length_append, Nat.add_sub_cancel]
  rw [stretch, hlen, hread, List.take_left]

theorem stretch_ne_nil (hp : p.failure = none) {n : ℕ} (h : p.result n ≠ .done) : p.stretch n ≠ [] := by
  intro hnil
  have hrest := rest_eq_stretch hp n
  have hlt := length_next_lt (p := p.after n) (by rw [failure_after, hp]) h
  rw [hnil, List.nil_append, after_succ] at hrest
  rw [hrest] at hlt
  exact absurd hlt (Nat.lt_irrefl _)

/-- The letters read by the first calls, and those that are left, are all letters. -/
theorem flatMap_stretch (hp : p.failure = none) (n : ℕ) :
    (List.range n).flatMap p.stretch ++ (p.after n).rest = p.rest := by
  induction n with
  | zero => rfl
  | succ n ih =>
    rw [List.range_succ, List.flatMap_append, List.append_assoc, List.flatMap_singleton,
      ← rest_eq_stretch hp, ih]

theorem result_of_rest (hp : p.failure = none) (h : p.rest = []) (n : ℕ) : p.result n = .done := by
  induction n generalizing p with
  | zero => exact done_of_rest hp h
  | succ n ih =>
    rw [result_succ]
    exact ih (by rw [next_failure, hp]) (rest_of_done hp (done_of_rest hp h))

/-- There is a first call that comes to the end, after at most as many calls as letters, and all calls
after it do so too. -/
theorem exists_done (hp : p.failure = none) :
    ∃ k ≤ p.rest.length, ∀ n, p.result n = .done ↔ k ≤ n := by
  generalize hlen : p.rest.length = len
  induction len using Nat.strongRecOn generalizing p with
  | ind len ih =>
    have hp' : p.next.2.failure = none := by rw [next_failure, hp]
    by_cases h : p.next.1 = .done
    · refine ⟨0, Nat.zero_le _, fun n => ⟨fun _ => Nat.zero_le n, fun _ => ?_⟩⟩
      cases n with
      | zero => exact h
      | succ n =>
        rw [result_succ]
        exact result_of_rest hp' (rest_of_done hp h) n
    · have hlt : p.next.2.rest.length < len := hlen ▸ length_next_lt hp h
      obtain ⟨k, hk, hdone⟩ := ih _ hlt hp' rfl
      refine ⟨k + 1, by omega, fun n => ?_⟩
      cases n with
      | zero => simp [result_zero, h]
      | succ n => rw [result_succ, hdone, Nat.add_le_add_iff_right]

/-- Reading with recovery makes progress and ends. Each call reads on where the call before it stopped;
one that returns a rule or a fault reads at least one letter; after `k` of these, which are at most as
many as the text has letters, every call tells that the text is at its end, and the letters read up to
the first that does so are the letters of the text. -/
theorem results_exhaust (file text : Bytes) (table : StateTable) :
    let p := Parser.start file text none table
    (∀ n, (p.after n).rest = p.stretch n ++ (p.after (n + 1)).rest) ∧
    ∃ k ≤ (Utf8.decode text).length,
      (∀ n < k, ((∃ i, p.result n = .rule i) ∨ ∃ e, p.result n = .fault e) ∧ p.stretch n ≠ []) ∧
      (∀ n, k ≤ n → p.result n = .done) ∧
      (List.range (k + 1)).flatMap p.stretch = Utf8.decode text := by
  intro p
  have hp : p.failure = none := rfl
  obtain ⟨k, hk, hdone⟩ := exists_done hp
  refine ⟨rest_eq_stretch hp, k, hk, fun n hn => ?_, fun n hn => (hdone n).2 hn, ?_⟩
  · have hne : p.result n ≠ .done := fun h => absurd ((hdone n).1 h) (Nat.not_le_of_lt hn)
    refine ⟨?_, stretch_ne_nil hp hne⟩
    have hread := next_ne_readFailed (p := p.after n) (by rw [failure_after, hp])
    cases hresult : p.result n with
    | rule i => exact .inl ⟨i, rfl⟩
    | fault e => exact .inr ⟨e, rfl⟩
    | readFailed cause => exact absurd hresult (hread cause)
    | done => exact absurd hresult hne
  · have hrest : (p.after (k + 1)).rest = [] :=
      rest_of_done (by rw [failure_after, hp]) ((hdone k).2 (Nat.le_refl k))
    have hall := flatMap_stretch hp (k + 1)
    rwa [hrest, List.append_nil] at hall

end Parser

end LogicMill.Rules
