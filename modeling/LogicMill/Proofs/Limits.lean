import LogicMill.Proofs.Calls

/-! # Faults that stem from limits

Assembling stops at the first fault. Whether the fault stems from a limit can be told from the text that
was read until then: it goes beyond a limit with its last character, or with its end.

* `RuleLines`: complete rules, each with its line.
* `StateField`: the beginning of a rule up to a state field.
* `Exceeds`, `Overruns`: what goes beyond a limit behind complete rules, and together with them.
* `Parser.FailsAt`: the call at which reading rule after rule stops with a fault; `gather_faults` says
  that assembling does so.
* `Parser.next_exceeds`, `Parser.FailsAt.overruns`: what one call, and all calls, read up to a fault from
  a limit.
* `Parser.FailsAt.of_exceeds`, `Parser.FailsAt.of_overruns`: the fault that comes of such a text.
* `assemble_capacity_iff`: both directions for assembling.
-/

namespace LogicMill.Rules
set_option autoImplicit false

/-! ## Texts beyond a limit -/

/-- The text consists of the given rules, each of them with the end of its line. -/
inductive RuleLines : List Char → List Phrase → Prop
  | nil : RuleLines [] []
  | rule {gap text rest : List Char} {phrase : Phrase} {phrases : List Phrase} (hgap : Gap gap)
      (h : Phrase.Written text phrase) (hrest : RuleLines rest phrases) :
      RuleLines (gap ++ text ++ '\n' :: rest) (phrase :: phrases)

/-- `StateField front names word`: in a rule that begins with `front`, a state field `word` can follow,
after the state names `names` in the same rule. -/
inductive StateField : List Char → List Bytes → List Char → Prop
  | source {gap word : List Char} (hgap : Gap gap) (hword : FirstField word) : StateField gap [] word
  | target {gap source s₁ s₂ word : List Char} {read : Char} (hgap : Gap gap)
      (hsource : FirstField source) (hs₁ : Spacing s₁) (hread : Text.isBlank read = false)
      (hs₂ : Spacing s₂) (hword : Field word) :
      StateField (gap ++ source ++ s₁ ++ read :: s₂) [Utf8.encode source] word

/-- What stands behind complete rules that mention the names `mentioned` goes beyond a limit with its
end; `full` says that no more rules may follow. -/
inductive Exceeds (mentioned : List Bytes) (full : Prop) : List Char → Prop
  /-- A state field goes on after `maxNameLength` characters. -/
  | stateLength {front word : List Char} {names : List Bytes} {c : Char}
      (hfield : StateField front names word) (hlen : word.length = maxNameLength)
      (hc : Text.isBlank c = false) : Exceeds mentioned full (front ++ word ++ [c])
  /-- A move field goes on after `maxNameLength` characters. -/
  | moveLength {gap front word : List Char} {phrase : Phrase} {c : Char} (hgap : Gap gap)
      (hfront : Phrase.Opens front phrase) (hword : MoveField word)
      (hlen : word.length = maxNameLength) (hc : Text.isBlank c = false) :
      Exceeds mentioned full (gap ++ front ++ word ++ [c])
  /-- White space ends a state field with a new name, and there are `maxStates` names already. -/
  | states {front word : List Char} {names : List Bytes} {c : Char}
      (hfield : StateField front names word) (hc : Text.isBlank c = true)
      (hnew : Utf8.encode word ∉ mentioned ++ names)
      (hnames : (mentioned ++ names).eraseDups.length = maxStates) :
      Exceeds mentioned full (front ++ word ++ [c])
  /-- One more rule, which ends with its line or with the text. -/
  | rule {gap text ending : List Char} {phrase : Phrase} (hfull : full) (hgap : Gap gap)
      (h : Phrase.Written text phrase) (hending : ending = [] ∨ ending = ['\n']) :
      Exceeds mentioned full (gap ++ text ++ ending)

theorem StateField.field {front word : List Char} {names : List Bytes} (h : StateField front names word) :
    Field word := by
  cases h with
  | source _ hword => exact hword.toField
  | target _ _ _ _ _ hword => exact hword

/-! ## Stages at a limit -/

/-- The reader is in a state field and has read `word` of it. -/
def Stage.Names (word : List Char) : Stage → Prop
  | .inSource token => token.chars = word
  | .inTarget _ _ token => token.chars = word
  | _ => False

section Stages

variable {t₀ t : StateTable} {pos₀ pos place : Position} {text word : List Char} {s : Stage} {c : Char}
  {fault : Fault} {mentioned : List Bytes} {full : Prop}

theorem internToken_error {token : Token} {resume : ℕ → Stage} {e : InternError}
    (h : t.intern token.text = .error e) :
    internToken t token resume = .fault token.start (.refusedState token.text e) := by
  rw [internToken, h]

theorem internToken_eq_fault {token : Token} {resume : ℕ → Stage}
    (h : internToken t token resume = .fault place fault) :
    ∃ e, t.intern token.text = .error e ∧ fault = .refusedState token.text e := by
  unfold internToken at h
  split at h
  · cases h
  · next e herror =>
    cases h
    exact ⟨e, herror, rfl⟩

theorem Stage.Names.next_long (h : s.Names word) (hlen : maxNameLength ≤ word.length)
    (hc : Text.isBlank c = false) :
    ∃ place, s.next t pos c = .fault place (.fieldTooLong (Utf8.encode word)) := by
  cases s with
  | inSource token =>
    obtain rfl : token.chars = word := h
    exact ⟨token.start, by simp [Stage.next, hc, hlen, Token.text]⟩
  | inTarget source read token =>
    obtain rfl : token.chars = word := h
    exact ⟨token.start, by simp [Stage.next, hc, hlen, Token.text]⟩
  | _ => exact absurd h id

theorem Stage.Names.next_refused (h : s.Names word) (hc : Text.isBlank c = true) {e : InternError}
    (he : t.intern (Utf8.encode word) = .error e) :
    ∃ place, s.next t pos c = .fault place (.refusedState (Utf8.encode word) e) := by
  cases s with
  | inSource token =>
    obtain rfl : token.chars = word := h
    simp only [Stage.next, hc, if_true]
    exact ⟨_, internToken_error he⟩
  | inTarget source read token =>
    obtain rfl : token.chars = word := h
    simp only [Stage.next, hc, if_true]
    exact ⟨_, internToken_error he⟩
  | _ => exact absurd h id

/-- The faults that stem from a limit, in terms of the stage in which they are found. -/
theorem next_capacity_cases (h : s.next t pos c = .fault place fault)
    (hcapacity : fault.capacity?.isSome) :
    (∃ word, s.Names word ∧
      (Text.isBlank c = false ∧ maxNameLength ≤ word.length ∨
        Text.isBlank c = true ∧ ∃ e, t.intern (Utf8.encode word) = .error e)) ∨
    ∃ fields token, s = .inMove fields token ∧ Text.isBlank c = false ∧
      maxNameLength ≤ token.chars.length := by
  cases s with
  | inSource token =>
    refine .inl ⟨token.chars, rfl, ?_⟩
    simp only [Stage.next] at h
    split at h
    · next hc =>
      obtain ⟨e, he, -⟩ := internToken_eq_fault h
      exact .inr ⟨hc, e, he⟩
    · next hc =>
      split at h
      · next hlen => exact .inl ⟨by simpa using hc, hlen⟩
      · split at h <;> cases h
  | inTarget source read token =>
    refine .inl ⟨token.chars, rfl, ?_⟩
    simp only [Stage.next] at h
    split at h
    · next hc =>
      obtain ⟨e, he, -⟩ := internToken_eq_fault h
      exact .inr ⟨hc, e, he⟩
    · next hc =>
      split at h
      · next hlen => exact .inl ⟨by simpa using hc, hlen⟩
      · cases h
  | inMove fields token =>
    refine .inr ⟨fields, token, rfl, ?_⟩
    simp only [Stage.next] at h
    split at h
    · split at h
      · cases h
        cases hcapacity
      · split at h <;> cases h
    · next hc =>
      split at h
      · next hlen => exact ⟨by simpa using hc, hlen⟩
      · split at h
        · cases h
        · split at h
          · cases h
            cases hcapacity
          · cases h
  | afterMove rule =>
    simp only [Stage.next] at h
    split_ifs at h
    cases h
    cases hcapacity
  | _ =>
    simp only [Stage.next] at h
    split at h <;> cases h <;> cases hcapacity

theorem close_capacity {e : Located Fault} (h : s.close pos = .fault e) : e.fault.capacity? = none := by
  cases s with
  | inMove fields token =>
    simp only [Stage.close] at h
    split at h <;> cases h
    rfl
  | _ => cases h <;> rfl

/-! ## From the reader to the text -/

/-- A state field is reached by the beginning of a rule, and the table then holds the names in it. -/
theorem Reads.stateField (h : Reads t₀ pos₀ text t s) (hs : s.Names word) (ht : t₀.Holds mentioned) :
    ∃ front names, text = front ++ word ∧ StateField front names word ∧ t.Holds (mentioned ++ names) := by
  cases h with
  | inSource hg hw =>
    obtain rfl := hs
    exact ⟨_, [], rfl, .source hg hw, by rwa [List.append_nil]⟩
  | inTarget h hw =>
    obtain rfl := hs
    cases h with
    | @beforeTarget _ s₂ _ _ read _ h hs₂ =>
    cases h with
    | inRead h hread =>
    cases h with
    | @beforeRead _ s₁ _ _ _ _ h hs₁ hsource =>
    cases h with
    | @inSource g source hg hv =>
    refine ⟨g ++ source ++ s₁ ++ read :: s₂, [Utf8.encode source], by simp,
      .target hg hv hs₁ hread hs₂ hw, ?_⟩
    exact (ht.of_intern hv.toField.count_pos hv.toField.count_le hsource).1
  | _ => exact absurd hs id

theorem Reads.next_exceeds (h : Reads t₀ pos₀ text t s) (ht : t₀.Holds mentioned)
    (hnext : s.next t (pos₀.past text) c = .fault place fault) (hcapacity : fault.capacity?.isSome) :
    Exceeds mentioned full (text ++ [c]) := by
  rcases next_capacity_cases hnext hcapacity with ⟨word, hs, hfield⟩ | ⟨fields, token, rfl, hc, hlen⟩
  · obtain ⟨front, names, rfl, hstate, ht'⟩ := h.stateField hs ht
    have hword := hstate.field
    rcases hfield with ⟨hc, hlen⟩ | ⟨hc, e, he⟩
    · exact .stateLength hstate (Nat.le_antisymm hword.length_le hlen) hc
    · obtain ⟨-, hnew, hnames⟩ := (ht'.intern_error_iff hword.count_pos hword.count_le).1 he
      exact .states hstate hc hnew hnames
  · cases h with
    | inMove h hw =>
    obtain ⟨g, front, phrase, hg, hopens, rfl, -, -⟩ := (reads_beforeMove_iff .left).1 h
    exact .moveLength hg hopens hw (Nat.le_antisymm hw.length_le hlen) hc

end Stages

/-! ## Calls up to a fault -/

namespace Parser

variable {p : Parser} {room k : ℕ} {e : Located Fault} {i : Instruction}

/-- Reading rule after rule, of which `room` are allowed, stops at call number `k` with the fault `e`: the
calls before it return rules, and it returns the fault itself or one rule too many. -/
structure FailsAt (p : Parser) (room k : ℕ) (e : Located Fault) : Prop where
  rules : ∀ n < k, ∃ i, p.result n = .rule i
  le : k ≤ room
  fails : p.result k = .fault e ∨
    k = room ∧ (∃ i, p.result k = .rule i) ∧ e = ⟨(p.after (k + 1)).last, .tooManyRules⟩

theorem after_next (n : ℕ) : p.next.2.after n = p.after (n + 1) := by
  rw [Nat.add_comm, after_add, after_succ, after_zero]

theorem FailsAt.cons (hrule : p.next.1 = .rule i) (h : p.next.2.FailsAt room k e) :
    p.FailsAt (room + 1) (k + 1) e where
  rules n hn := by
    cases n with
    | zero => exact ⟨i, hrule⟩
    | succ n =>
      rw [result_succ]
      exact h.rules n (Nat.lt_of_succ_lt_succ hn)
  le := Nat.succ_le_succ h.le
  fails := by
    rw [result_succ, ← after_next, Nat.add_right_cancel_iff]
    exact h.fails

theorem FailsAt.uncons (h : p.FailsAt room k e) (hrule : p.next.1 = .rule i) :
    (room = 0 ∧ k = 0 ∧ e.fault = .tooManyRules) ∨
      ∃ room' k', room = room' + 1 ∧ k = k' + 1 ∧ p.next.2.FailsAt room' k' e := by
  cases k with
  | zero =>
    refine .inl ?_
    rcases h.fails with hfault | ⟨hroom, -, he⟩
    · rw [result_zero, hrule] at hfault
      cases hfault
    · exact ⟨hroom.symm, rfl, by rw [he]⟩
  | succ k =>
    have hle := h.le
    obtain ⟨room, rfl⟩ := Nat.exists_eq_add_of_le' (Nat.lt_of_lt_of_le (Nat.zero_lt_succ k) hle)
    refine .inr ⟨room, k, rfl, rfl, fun n hn => ?_, Nat.le_of_succ_le_succ hle, ?_⟩
    · rw [← result_succ]
      exact h.rules (n + 1) (Nat.succ_lt_succ hn)
    · have hfails := h.fails
      rwa [result_succ, ← after_next, Nat.add_right_cancel_iff] at hfails

theorem FailsAt.of_fault {e' : Located Fault} (h : p.FailsAt room k e) (hfault : p.next.1 = .fault e') :
    e = e' := by
  cases k with
  | zero =>
    rcases h.fails with hfault' | ⟨-, ⟨i, hrule⟩, -⟩
    · rw [result_zero, hfault] at hfault'
      cases hfault'
      rfl
    · rw [result_zero, hfault] at hrule
      cases hrule
  | succ k =>
    obtain ⟨i, hrule⟩ := h.rules 0 (Nat.zero_lt_succ k)
    rw [result_zero, hfault] at hrule
    cases hrule

end Parser

/-- Assembling fails with the first fault that reading rule after rule comes to. -/
theorem gather_faults {fuel room : ℕ} {p : Parser} {code : Array Instruction} {report : Report Fault}
    (hroom : code.size + room = maxInstructions) (h : gather fuel p code = .error (.faults report)) :
    ∃ k e, p.FailsAt room k e ∧ report = [e] := by
  induction fuel generalizing p code room with
  | zero => cases h
  | succ fuel ih =>
    unfold gather at h
    rcases hnext : p.next with ⟨item, q⟩
    rw [hnext] at h
    have hfirst : p.result 0 = item := congrArg Prod.fst hnext
    have hafter : p.after 1 = q := congrArg Prod.snd hnext
    have hnone (n : ℕ) (hn : n < 0) : ∃ i, p.result n = .rule i := absurd hn (Nat.not_lt_zero n)
    cases item with
    | done => cases h
    | readFailed cause => cases h
    | fault e =>
      cases h
      exact ⟨0, e, ⟨hnone, Nat.zero_le room, .inl hfirst⟩, rfl⟩
    | rule i =>
      simp only at h
      split at h
      · next hfull =>
        cases h
        have hzero : 0 = room := by omega
        exact ⟨0, _, ⟨hnone, Nat.zero_le room, .inr ⟨hzero, ⟨i, hfirst⟩, by rw [hafter]⟩⟩, rfl⟩
      · next hfull =>
        obtain ⟨room, rfl⟩ : ∃ room', room = room' + 1 := ⟨room - 1, by omega⟩
        obtain ⟨k, e, hk, rfl⟩ := @ih room q (code.push i) (by rw [Array.size_push]; omega) h
        rw [← hafter] at hk
        exact ⟨k + 1, e, hk.cons hfirst, rfl⟩

/-! ## From faults to texts -/

theorem LineOf.read {letters rest consumed : List Utf8.Letter} {text : List Char}
    (h : LineOf letters text rest) (hletters : letters = consumed ++ rest) :
    ∃ ending, (ending = [] ∨ ending = ['\n']) ∧ consumed = (text ++ ending).map .char := by
  rcases h with hline | ⟨hline, rfl⟩
  · exact ⟨['\n'], .inr rfl, List.append_cancel_right (hletters.symm.trans hline)⟩
  · refine ⟨[], .inl rfl, ?_⟩
    rw [List.append_nil] at hletters ⊢
    exact hletters.symm.trans hline

/-- Complete rules, of which `room` are allowed, and a text behind them that goes beyond a limit; the
names `mentioned` are mentioned before. -/
def Overruns (room : ℕ) (mentioned : List Bytes) (text : List Char) : Prop :=
  ∃ front phrases part, text = front ++ part ∧ RuleLines front phrases ∧ phrases.length ≤ room ∧
    Exceeds (mentioned ++ phrases.flatMap Phrase.names) (phrases.length = room) part

theorem Overruns.of_exceeds {room : ℕ} {mentioned : List Bytes} {text : List Char}
    (h : Exceeds mentioned (0 = room) text) : Overruns room mentioned text :=
  ⟨[], [], text, rfl, .nil, Nat.zero_le room, by simpa using h⟩

theorem Overruns.cons {room : ℕ} {mentioned : List Bytes} {gap text rest : List Char} {phrase : Phrase}
    (hgap : Gap gap) (h : Phrase.Written text phrase)
    (hrest : Overruns room (mentioned ++ phrase.names) rest) :
    Overruns (room + 1) mentioned (gap ++ text ++ '\n' :: rest) := by
  obtain ⟨front, phrases, part, rfl, hlines, hlen, hpart⟩ := hrest
  refine ⟨_, _, part, ?_, .rule hgap h hlines, Nat.succ_le_succ hlen, ?_⟩
  · simp
  · rw [List.length_cons, Nat.add_right_cancel_iff, List.flatMap_cons, ← List.append_assoc]
    exact hpart

namespace Parser

variable {p : Parser} {room k : ℕ} {e : Located Fault} {i : Instruction} {mentioned : List Bytes}
  {consumed tail : List Utf8.Letter} {text word : List Char} {t : StateTable} {s : Stage} {full : Prop}

theorem next_exceeds (h : p.next.1 = .fault e) (hcapacity : e.fault.capacity?.isSome)
    (ht : p.table.Holds mentioned) (hrest : p.rest = consumed ++ p.next.2.rest) :
    ∃ part, consumed = part.map .char ∧ Exceeds mentioned full part := by
  obtain ⟨text, rest, s, t, hrest', hreads, hend⟩ := p.next_reads
  rw [hrest'] at hrest
  generalize p.next = result at hend h hrest
  cases hend with
  | close =>
    rw [close_capacity h] at hcapacity
    cases hcapacity
  | unreadable => cases h
  | stray =>
    cases h
    cases hcapacity
  | rule => cases h
  | @fault c rest place fault hnext =>
    cases h
    have hread : consumed ++ rest = (text ++ [c]).map .char ++ rest := by
      rw [← hrest]
      simp
    exact ⟨text ++ [c], List.append_cancel_right hread, hreads.next_exceeds ht hnext hcapacity⟩

/-- Reading on leaves less than there was, unless there was nothing. -/
theorem scan_rest (failure : Option Bytes) (s : Stage) (t : StateTable) (last pos : Position)
    (letters : List Utf8.Letter) :
    (scan failure s t last pos letters).2.rest <:+ letters ∧
      ((scan failure s t last pos letters).2.rest = letters → letters = []) := by
  obtain ⟨text, rest, s', t', hletters, -, hend⟩ := scan_cases failure s t last pos letters
  generalize scan failure s t last pos letters = result at hend ⊢
  rw [hletters]
  cases hend with
  | close | unreadable => exact ⟨List.nil_suffix, fun h => h.symm⟩
  | @stray b rest | @rule c rest | @fault c rest =>
    refine ⟨⟨text.map .char ++ [_], List.append_assoc ..⟩, fun h => ?_⟩
    have hlength := congrArg List.length h
    simp only [List.length_append, List.length_cons] at hlength
    omega

theorem rest_suffix (p : Parser) (n : ℕ) : (p.after n).rest <:+ p.rest := by
  induction n with
  | zero => exact List.suffix_refl _
  | succ n ih => exact (scan_rest ..).1.trans ih

theorem next_nil (h : p.rest = []) : p.next.1 = .done ∨ ∃ cause, p.next.1 = .readFailed cause := by
  rw [next, h]
  cases p.failure with
  | none => exact .inl rfl
  | some cause => exact .inr ⟨cause, rfl⟩

theorem FailsAt.rest_ne_nil (h : p.FailsAt room k e) : p.rest ≠ [] := by
  have hfirst : (∃ i, p.next.1 = .rule i) ∨ p.next.1 = .fault e := by
    cases k with
    | zero => exact h.fails.symm.imp (fun ⟨_, hrule, _⟩ => hrule) id
    | succ k => exact .inl (h.rules 0 (Nat.zero_lt_succ k))
  intro hrest
  rcases next_nil hrest with hnext | ⟨cause, hnext⟩ <;> rw [hnext] at hfirst <;> simp at hfirst

theorem FailsAt.overruns (h : p.FailsAt room k e) (ht : p.table.Holds mentioned)
    (hcapacity : e.fault.capacity?.isSome) (hrest : p.rest = consumed ++ (p.after (k + 1)).rest) :
    ∃ chars : List Char, consumed = chars.map .char ∧ Overruns room mentioned chars := by
  induction k generalizing p room mentioned consumed with
  | zero =>
    rcases h.fails with hfault | ⟨rfl, ⟨i, hrule⟩, -⟩
    · obtain ⟨part, hpart, hexceeds⟩ := next_exceeds hfault hcapacity ht hrest
      exact ⟨part, hpart, .of_exceeds hexceeds⟩
    · obtain ⟨g, body, phrase, fields, hg, hbody, -, -, hline⟩ := next_of_rule hrule
      obtain ⟨ending, hending, hread⟩ := hline.read hrest
      exact ⟨_, hread, .of_exceeds (.rule rfl hg hbody hending)⟩
  | succ k ih =>
    obtain ⟨i, hrule⟩ : ∃ i, p.next.1 = .rule i := h.rules 0 (Nat.zero_lt_succ k)
    rcases h.uncons hrule with ⟨-, hk, -⟩ | ⟨room, k', rfl, hk, hfails⟩
    · cases hk
    · obtain rfl := Nat.succ.inj hk
      obtain ⟨g, body, phrase, fields, hg, hbody, hresolves, -, hline⟩ := next_of_rule hrule
      have ht' := (hresolves.instruction_eq hbody.legible ht).1
      obtain ⟨more, hmore⟩ := p.next.2.rest_suffix (k + 1)
      obtain ⟨chars, rfl, hchars⟩ := ih hfails ht' hmore.symm
      rcases hline with hline | ⟨-, hnil⟩
      · refine ⟨_, ?_, .cons hg hbody hchars⟩
        rw [hline, ← hmore, after_next, ← List.append_assoc] at hrest
        rw [← List.append_cancel_right hrest]
        simp
      -- A rule that ends with the text is the last one.
      · exact absurd hnil hfails.rest_ne_nil

/-! ## From texts to faults

Each of the following lemmas takes the reader over one more part of a rule. It may stop on the way, at a
name for which there is no room; but then the fault stems from a limit as well. -/

/-- The next call returns a fault that stems from a limit. -/
def Limited (p : Parser) : Prop := ∃ e, p.next.1 = .fault e ∧ e.fault.capacity?.isSome

theorem next_of_reads (h : Reads p.table p.pos text t s) (hrest : p.rest = text.map .char ++ tail) :
    ∃ last, p.next = scan p.failure s t last (p.pos.past text) tail := by
  rw [next, hrest]
  exact scan_of_walks h.walks p.failure p.last tail

theorem next_of_fault {c : Char} {place : Position} {fault : Fault} (h : Reads p.table p.pos text t s)
    (hrest : p.rest = (text ++ [c]).map .char ++ tail)
    (hnext : s.next t (p.pos.past text) c = .fault place fault) : p.next.1 = .fault ⟨place, fault⟩ := by
  rw [List.map_append, List.append_assoc] at hrest
  obtain ⟨last, hscan⟩ := next_of_reads h hrest
  rw [hscan]
  simp [scan, hnext]

theorem next_of_completes (h : Reads p.table p.pos text t s) (hs : s.Completes i)
    (hrest : p.rest = (text ++ ['\n']).map .char ++ tail) :
    p.next.1 = .rule i ∧ p.next.2.rest = tail ∧ p.next.2.table = t := by
  rw [List.map_append, List.append_assoc] at hrest
  obtain ⟨last, hscan⟩ := next_of_reads h hrest
  have hnext : s.next t (p.pos.past text) '\n' = .rule i := next_eq_rule_iff.2 ⟨rfl, hs⟩
  rw [hscan]
  simp [scan, hnext]

theorem interned_or_limited {spacing : List Char} (h : Reads p.table p.pos text t s) (hs : s.Names word)
    (hword : Field word) (ht : t.Holds mentioned) (hspacing : Spacing spacing)
    (hrest : p.rest = (text ++ spacing).map .char ++ tail) :
    p.Limited ∨ ∃ id t', t.intern (Utf8.encode word) = .ok (id, t') ∧
      t'.Holds (mentioned ++ [Utf8.encode word]) := by
  cases hintern : t.intern (Utf8.encode word) with
  | ok result =>
    obtain ⟨id, t'⟩ := result
    exact .inr ⟨id, t', rfl, (ht.of_intern hword.count_pos hword.count_le hintern).1⟩
  | error cause =>
    obtain ⟨rfl, -⟩ := (ht.intern_error_iff hword.count_pos hword.count_le).1 hintern
    cases spacing with
    | nil => exact absurd rfl hspacing.ne_nil
    | cons c spacing =>
      obtain ⟨place, hnext⟩ := hs.next_refused (hspacing.blank c (List.mem_cons_self ..)) hintern
      have hrest' : p.rest = (text ++ [c]).map .char ++ (spacing.map .char ++ tail) := by
        rw [hrest]
        simp
      exact .inl ⟨_, next_of_fault h hrest' hnext, rfl⟩

theorem target_or_limited {g source s₁ s₂ : List Char} {read : Char} (hg : Gap g)
    (hsource : FirstField source) (hs₁ : Spacing s₁) (hread : Text.isBlank read = false)
    (hs₂ : Spacing s₂) (hword : Field word) (ht : p.table.Holds mentioned)
    (hrest : p.rest = (g ++ source ++ s₁).map .char ++ tail) :
    p.Limited ∨ ∃ id t place, p.table.intern (Utf8.encode source) = .ok (id, t) ∧
      Reads p.table p.pos (g ++ source ++ s₁ ++ read :: s₂ ++ word) t
        (.inTarget id (ruleSymbol read) ⟨word, place⟩) ∧
      t.Holds (mentioned ++ [Utf8.encode source]) := by
  have hin : Reads p.table p.pos (g ++ source) p.table (.inSource ⟨source, p.pos.past g⟩) :=
    .inSource hg hsource
  refine (interned_or_limited hin rfl hsource.toField ht hs₁ hrest).imp_right ?_
  rintro ⟨id, t, hid, ht'⟩
  have htarget := Reads.inTarget (.beforeTarget (.inRead (.beforeRead hin hs₁ hid) hread) hs₂) hword
  rw [List.append_assoc _ [read]] at htarget
  exact ⟨id, t, _, hid, htarget, ht'⟩

theorem stateField_or_limited {front : List Char} {names : List Bytes}
    (hfield : StateField front names word) (ht : p.table.Holds mentioned)
    (hrest : p.rest = (front ++ word).map .char ++ tail) :
    p.Limited ∨ ∃ t s, Reads p.table p.pos (front ++ word) t s ∧ s.Names word ∧
      t.Holds (mentioned ++ names) := by
  cases hfield with
  | source hgap hword => exact .inr ⟨_, _, .inSource hgap hword, rfl, by rwa [List.append_nil]⟩
  | @target g source s₁ s₂ _ read hgap hsource hs₁ hread hs₂ hword =>
    have hrest' : p.rest = (g ++ source ++ s₁).map .char ++ ((read :: s₂ ++ word).map .char ++ tail) := by
      rw [hrest]
      simp
    refine (target_or_limited hgap hsource hs₁ hread hs₂ hword ht hrest').imp_right ?_
    rintro ⟨id, t, place, -, hreads, ht'⟩
    exact ⟨t, _, hreads, rfl, ht'⟩

theorem resolves_or_limited {g front : List Char} {phrase : Phrase} (hg : Gap g)
    (hopens : Phrase.Opens front phrase) (ht : p.table.Holds mentioned)
    (hrest : p.rest = (g ++ front).map .char ++ tail) :
    p.Limited ∨ ∃ fields t, phrase.Resolves p.table fields t := by
  cases hopens with
  | @mk source s₁ s₂ target s₃ s₄ read write move hsource hs₁ hread hs₂ htarget hs₃ hwrite hs₄ =>
  have hrest' : p.rest = (g ++ source ++ s₁).map .char ++
      ((read :: s₂ ++ target ++ s₃ ++ write :: s₄).map .char ++ tail) := by
    rw [hrest]
    simp
  rcases target_or_limited hg hsource hs₁ hread hs₂ htarget ht hrest' with hlimited | hreached
  · exact .inl hlimited
  · obtain ⟨id, t, place, hid, hreads, ht'⟩ := hreached
    have hrest'' : p.rest = (g ++ source ++ s₁ ++ read :: s₂ ++ target ++ s₃).map .char ++
        ((write :: s₄).map .char ++ tail) := by
      rw [hrest]
      simp
    refine (interned_or_limited hreads rfl htarget ht' hs₃ hrest'').imp_right ?_
    rintro ⟨id', t', hid', -⟩
    exact ⟨⟨id, symbolOf read, id', symbolOf write⟩, t', ⟨t, hid, hid'⟩, rfl, rfl⟩

theorem completes_or_limited {g body : List Char} {phrase : Phrase} (hg : Gap g)
    (hbody : Phrase.Written body phrase) (ht : p.table.Holds mentioned)
    (hrest : p.rest = (g ++ body).map .char ++ tail) :
    p.Limited ∨ ∃ t s i, Reads p.table p.pos (g ++ body) t s ∧ s.Completes i ∧
      t.Holds (mentioned ++ phrase.names) := by
  have hlegible := hbody.legible
  cases hbody with
  | @mk front ending letter _ hopens hmove hending =>
  have hrest' : p.rest = (g ++ front).map .char ++ ((letter :: ending).map .char ++ tail) := by
    rw [hrest]
    simp
  refine (resolves_or_limited hg hopens ht hrest').imp_right ?_
  rintro ⟨fields, t, hresolves⟩
  obtain ⟨s, hreads, hs⟩ := reads_completes_iff.2
    ⟨g, _, phrase, fields, hg, .mk hopens hmove hending, rfl, hresolves, rfl⟩
  exact ⟨t, s, _, hreads, hs, (hresolves.instruction_eq hlegible ht).1⟩

theorem FailsAt.of_limited (h : p.FailsAt room k e) (hp : p.Limited) : e.fault.capacity?.isSome := by
  obtain ⟨e', he', hcapacity⟩ := hp
  rwa [h.of_fault he']

theorem limited_of_stateField {front : List Char} {names : List Bytes} {c : Char}
    (hfield : StateField front names word) (ht : p.table.Holds mentioned)
    (hrest : p.rest = (front ++ word ++ [c]).map .char ++ tail)
    (hlimit : word.length = maxNameLength ∧ Text.isBlank c = false ∨
      Text.isBlank c = true ∧ Utf8.encode word ∉ mentioned ++ names ∧
        (mentioned ++ names).eraseDups.length = maxStates) : p.Limited := by
  have hword := hfield.field
  have hrest' : p.rest = (front ++ word).map .char ++ ([c].map .char ++ tail) := by
    rw [hrest]
    simp
  rcases stateField_or_limited hfield ht hrest' with hlimited | ⟨t, s, hreads, hs, ht'⟩
  · exact hlimited
  · rcases hlimit with ⟨hlen, hc⟩ | ⟨hc, hnew, hnames⟩
    · obtain ⟨place, hnext⟩ := hs.next_long hlen.ge hc
      exact ⟨_, next_of_fault hreads hrest hnext, rfl⟩
    · have hrefused := (ht'.intern_error_iff hword.count_pos hword.count_le).2 ⟨rfl, hnew, hnames⟩
      obtain ⟨place, hnext⟩ := hs.next_refused hc hrefused
      exact ⟨_, next_of_fault hreads hrest hnext, rfl⟩

theorem limited_of_moveField {g front : List Char} {phrase : Phrase} {c : Char} (hg : Gap g)
    (hopens : Phrase.Opens front phrase) (hword : MoveField word) (hlen : word.length = maxNameLength)
    (hc : Text.isBlank c = false) (ht : p.table.Holds mentioned)
    (hrest : p.rest = (g ++ front ++ word ++ [c]).map .char ++ tail) : p.Limited := by
  have hrest' : p.rest = (g ++ front).map .char ++ ((word ++ [c]).map .char ++ tail) := by
    rw [hrest]
    simp
  rcases resolves_or_limited hg hopens ht hrest' with hlimited | ⟨fields, t, hresolves⟩
  · exact hlimited
  · have hfront : Reads p.table p.pos (g ++ front) t (.beforeMove fields) :=
      (reads_beforeMove_iff phrase.move).2 ⟨g, front, phrase, hg, hopens, rfl, hresolves, rfl⟩
    have hnext (start pos : Position) : (Stage.inMove fields ⟨word, start⟩).next t pos c =
        .fault start (.fieldTooLong (Utf8.encode word)) := by
      simp [Stage.next, hc, hlen, Token.text]
    exact ⟨_, next_of_fault (.inMove hfront hword) hrest (hnext _ _), rfl⟩

/-- Where a rule is complete with the last letter that was read, the only fault can be that it is one too
many. -/
theorem FailsAt.of_completes (h : p.FailsAt 0 k e) (hreads : Reads p.table p.pos text t s)
    (hs : s.Completes i) (hrest : p.rest = text.map .char ++ (p.after (k + 1)).rest) :
    e.fault = .tooManyRules := by
  obtain rfl : k = 0 := Nat.le_zero.1 h.le
  rcases h.fails with hfault | ⟨-, -, rfl⟩
  · -- Reading on from the stage that holds the rule left all letters, so there was none to read.
    obtain ⟨last, hscan⟩ := next_of_reads hreads hrest
    have hnil : (p.after 1).rest = [] := (scan_rest ..).2 (congrArg (·.2.rest) hscan.symm)
    have hclose : s.close (p.pos.past text) = .rule i := close_eq_rule_iff.2 hs
    rw [hnil] at hscan
    rw [result_zero, hscan] at hfault
    cases hfailure : p.failure with
    | none =>
      rw [hfailure] at hfault
      exact nomatch (hclose.symm.trans hfault)
    | some cause =>
      rw [hfailure] at hfault
      cases hfault
  · rfl

theorem FailsAt.of_exceeds (h : p.FailsAt room k e) (ht : p.table.Holds mentioned)
    (hrest : p.rest = text.map .char ++ (p.after (k + 1)).rest)
    (hexceeds : Exceeds mentioned (0 = room) text) : e.fault.capacity?.isSome := by
  cases hexceeds with
  | stateLength hfield hlen hc =>
    exact h.of_limited (limited_of_stateField hfield ht hrest (.inl ⟨hlen, hc⟩))
  | moveLength hgap hfront hword hlen hc =>
    exact h.of_limited (limited_of_moveField hgap hfront hword hlen hc ht hrest)
  | states hfield hc hnew hnames =>
    exact h.of_limited (limited_of_stateField hfield ht hrest (.inr ⟨hc, hnew, hnames⟩))
  | @rule gap text ending phrase hfull hgap hbody hending =>
    -- There is no room for a rule, so the call that returns it is the last one.
    subst hfull
    have hrest' : p.rest = (gap ++ text).map .char ++ (ending.map .char ++ (p.after (k + 1)).rest) := by
      rw [hrest]
      simp
    rcases completes_or_limited hgap hbody ht hrest' with hlimited | ⟨t, s, i, hreads, hs, -⟩
    · exact h.of_limited hlimited
    · have hmany : e.fault = .tooManyRules := by
        rcases hending with rfl | rfl
        · rw [List.append_nil] at hrest
          exact h.of_completes hreads hs hrest
        · obtain ⟨hrule, -⟩ := next_of_completes hreads hs hrest
          rcases h.uncons hrule with ⟨-, -, hmany⟩ | ⟨room, k, hroom, -⟩
          · exact hmany
          · cases hroom
      rw [hmany]
      rfl

theorem FailsAt.of_overruns (h : p.FailsAt room k e) (ht : p.table.Holds mentioned)
    (hrest : p.rest = text.map .char ++ (p.after (k + 1)).rest) (hover : Overruns room mentioned text) :
    e.fault.capacity?.isSome := by
  obtain ⟨front, phrases, part, rfl, hlines, hlen, hpart⟩ := hover
  -- Rule by rule: each is returned by its call, and the fault is one of the calls behind it.
  induction hlines generalizing p room k mentioned with
  | nil => exact h.of_exceeds ht hrest (by simpa using hpart)
  | @rule gap text rest phrase phrases hgap hbody _ ih =>
    have hrest' : p.rest = (gap ++ text ++ ['\n']).map .char ++
        ((rest ++ part).map .char ++ (p.after (k + 1)).rest) := by
      rw [hrest]
      simp
    have hrest'' : p.rest = (gap ++ text).map .char ++
        (['\n'].map .char ++ ((rest ++ part).map .char ++ (p.after (k + 1)).rest)) := by
      rw [hrest']
      simp
    rcases completes_or_limited hgap hbody ht hrest'' with hlimited | ⟨t, s, i, hreads, hs, ht'⟩
    · exact h.of_limited hlimited
    · obtain ⟨hrule, hleft, rfl⟩ := next_of_completes hreads hs hrest'
      rcases h.uncons hrule with ⟨rfl, -⟩ | ⟨room, k, rfl, rfl, hfails⟩
      · cases hlen
      · rw [List.length_cons, Nat.add_right_cancel_iff, List.flatMap_cons, ← List.append_assoc] at hpart
        rw [← after_next] at hleft
        exact ih hfails ht' hleft (Nat.le_of_succ_le_succ hlen) hpart

end Parser

/-! ## Assembling -/

theorem assemble_faults {file text : Bytes} {failure : Option Bytes} {report : Report Fault}
    (h : assemble file text failure = .error (.faults report)) :
    ∃ k e, (Parser.start file text failure .initial).FailsAt maxInstructions k e ∧ report = [e] := by
  unfold assemble at h
  simp only at h
  split at h
  · next e hgather =>
    cases h
    exact gather_faults (Nat.zero_add _) hgather
  · split at h <;> cases h

/-- Where assembling fails with a fault, the fault stems from a limit exactly if the letters that were read
until then are complete rules, at most `maxInstructions` of them, and behind them what goes beyond a
limit with its end: a state field or a move field with a character behind the first `maxNameLength`; a
state field ended by white space with a name that is new, while `maxStates` names are there already; or,
behind `maxInstructions` rules, one more rule. -/
theorem assemble_capacity_iff {file text : Bytes} {failure : Option Bytes} {report : Report Fault}
    (h : assemble file text failure = .error (.faults report)) :
    let p := Parser.start file text failure .initial
    ∃ k e consumed, p.FailsAt maxInstructions k e ∧ report = [e] ∧
      Utf8.decode text = consumed ++ (p.after (k + 1)).rest ∧
      (report.capacity?.isSome ↔ ∃ front phrases part,
        consumed = (front ++ part).map .char ∧ RuleLines front phrases ∧
        phrases.length ≤ maxInstructions ∧
        Exceeds (mentions phrases) (phrases.length = maxInstructions) part) := by
  intro p
  obtain ⟨k, e, hfails, rfl⟩ := assemble_faults h
  obtain ⟨consumed, hconsumed⟩ := p.rest_suffix (k + 1)
  have ht : p.table.Holds StateTable.builtin := StateTable.holds_initial
  refine ⟨k, e, consumed, hfails, rfl, hconsumed.symm, fun hcapacity => ?_, ?_⟩
  · obtain ⟨_, hchars, front, phrases, part, rfl, hover⟩ := hfails.overruns ht hcapacity hconsumed.symm
    exact ⟨front, phrases, part, hchars, hover⟩
  · rintro ⟨front, phrases, part, rfl, hover⟩
    exact hfails.of_overruns ht hconsumed.symm ⟨front, phrases, part, rfl, hover⟩

/-- A rule whose move field is one letter too long. -/
def longMove : Bytes := utf8 "INIT a HALT b " ++ List.replicate (maxNameLength + 1) 0x4C

theorem assemble_capacity_iff_longMove :
    ∃ report, assemble [] longMove none = .error (.faults report) ∧
      report.capacity? = some .nameLength ∧
      ∃ front phrases part, (front ++ part).map Utf8.Letter.char <+: Utf8.decode longMove ∧
        RuleLines front phrases ∧ Exceeds (mentions phrases) (phrases.length = maxInstructions) part := by
  have hassemble : assemble [] longMove none =
      .error (.faults [⟨⟨[], 14, 1, 15⟩, .fieldTooLong (List.replicate maxNameLength 0x4C)⟩]) := rfl
  obtain ⟨k, e, consumed, -, -, hconsumed, hcapacity⟩ := assemble_capacity_iff hassemble
  obtain ⟨front, phrases, part, rfl, hlines, -, hpart⟩ := hcapacity.1 rfl
  exact ⟨_, hassemble, rfl, front, phrases, part, ⟨_, hconsumed.symm⟩, hlines, hpart⟩

end LogicMill.Rules
