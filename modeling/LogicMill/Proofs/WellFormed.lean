import LogicMill.Proofs.Calls
import LogicMill.Proofs.Interning

/-! # What the reader returns

The reader only returns rules that can stand in a program, whatever the text is, wherever it breaks off
and however many faults came before. So a program can always be built of the rules of a text.

* `Symbol.Nameable`, `Instruction.WellFormed`: the symbols and the instructions that the reader returns.
* `Reads.table_induction`: the table changes only where a state field ends.
* `Reads.grows`: on the way through a rule the table only grows, also if the rule comes to nothing.
* `Phrase.Resolves.wellFormed`: both numbers of a rule are numbers of the table that it leaves.
* `Parser.next_wellFormed`, `Parser.grows_after`: one call, and any number of calls.
* `gather_cases`: how reading rule after rule ends.
* `results_wellFormed`: the rules of every call, and what assembling comes to.
-/

namespace LogicMill
set_option autoImplicit false

/-! ## Instructions -/

/-- The blank, or a character that is neither white space nor the underscore. -/
def Symbol.Nameable (s : Symbol) : Prop :=
  s = .blank ∨ ∃ c : Char, s = .ofChar c ∧ Text.isBlank c = false ∧ c ≠ '_'

structure Instruction.WellFormed (states : ℕ) (i : Instruction) : Prop where
  valid : i.Valid states
  read : i.read.Nameable
  write : i.write.Nameable

theorem Instruction.Valid.mono {a b : ℕ} {i : Instruction} (h : i.Valid a) (hab : a ≤ b) : i.Valid b := by
  obtain ⟨⟨⟨hsource, hsource'⟩, htarget, htarget'⟩, hmove⟩ := h
  have hcast : (a : ℤ) ≤ b := Int.ofNat_le.2 hab
  exact ⟨⟨⟨hsource, Int.lt_of_lt_of_le hsource' hcast⟩, htarget, Int.lt_of_lt_of_le htarget' hcast⟩, hmove⟩

namespace Rules

theorem nameable_symbolOf {c : Char} (h : Text.isBlank c = false) : (symbolOf c).Nameable := by
  by_cases hc : c = '_'
  · subst hc
    exact .inl rfl
  · exact .inr ⟨c, symbolOf_of_ne hc, h, hc⟩

/-! ## One rule -/

/-- What holds of the table before a rule, and is kept where a state field ends, holds all the way through
the rule: nothing else changes the table. -/
theorem Reads.table_induction {P : StateTable → Prop} {t₀ t : StateTable} {pos₀ : Position}
    {text : List Char} {stage : Stage} (h : Reads t₀ pos₀ text t stage) (hstart : P t₀)
    (hintern : ∀ {t t' : StateTable} {name : Bytes} {id : ℕ}, P t → t.intern name = .ok (id, t') → P t') :
    P t := by
  induction h with
  | gap | comment | inSource => exact hstart
  | beforeRead _ _ hid ih => exact hintern ih hid
  | beforeWrite _ _ hid ih => exact hintern ih hid
  | inRead _ _ ih | inTarget _ _ ih | inWrite _ _ ih | inMove _ _ ih | inRemark _ _ ih => exact ih
  | beforeTarget _ _ ih | beforeMove _ _ ih | afterSlash _ ih => exact ih
  | afterMove _ _ _ _ ih => exact ih
  | attached _ _ _ ih => exact ih

theorem Reads.grows {t₀ t : StateTable} {pos₀ : Position} {text : List Char} {stage : Stage}
    (h : Reads t₀ pos₀ text t stage) : t₀.Grows t :=
  h.table_induction (.refl t₀) fun hgrows hid => hgrows.trans (StateTable.intern_grows hid).1

/-- The source was given its number before the target, but has it still when the rule is complete. -/
theorem Phrase.Resolves.wellFormed {phrase : Phrase} {t t' : StateTable} {fields : Fields}
    (h : phrase.Resolves t fields t') (hlegible : phrase.Legible) :
    (fields.rule phrase.move).WellFormed t'.size := by
  obtain ⟨⟨t₁, hsource, htarget⟩, hread, hwrite⟩ := h
  obtain ⟨-, hfind₁⟩ := StateTable.intern_grows hsource
  obtain ⟨hgrows, hfind₂⟩ := StateTable.intern_grows htarget
  have hsize₁ := (StateTable.find?_eq_some_iff_name.1 (hgrows.find?_eq hfind₁)).1
  have hsize₂ := (StateTable.find?_eq_some_iff_name.1 hfind₂).1
  refine ⟨⟨⟨⟨Int.natCast_nonneg _, ?_⟩, Int.natCast_nonneg _, ?_⟩, hlegible.move⟩, ?_, ?_⟩
  · exact Int.ofNat_lt.2 hsize₁
  · exact Int.ofNat_lt.2 hsize₂
  · show fields.read.Nameable
    rw [hread]
    exact nameable_symbolOf hlegible.read
  · show fields.write.Nameable
    rw [hwrite]
    exact nameable_symbolOf hlegible.write

theorem Reads.wellFormed {t₀ t : StateTable} {pos₀ : Position} {text : List Char} {stage : Stage}
    {i : Instruction} (h : Reads t₀ pos₀ text t stage) (hi : stage.Completes i) :
    i.WellFormed t.size := by
  obtain ⟨g, body, phrase, fields, -, hbody, -, hresolves, rfl⟩ := reads_completes_iff.1 ⟨stage, h, hi⟩
  exact hresolves.wellFormed hbody.legible

/-! ## Calls -/

namespace Parser

variable {p : Parser} {i : Instruction}

theorem next_wellFormed (p : Parser) :
    p.table.Grows p.next.2.table ∧ ∀ i, p.next.1 = .rule i → i.WellFormed p.next.2.table.size := by
  obtain ⟨text, rest, s, t, -, hreads, hend⟩ := p.next_reads
  generalize p.next = result at hend ⊢
  cases hend with
  | close => exact ⟨hreads.grows, fun i hi => hreads.wellFormed (close_eq_rule_iff.1 hi)⟩
  | rule hnext =>
    refine ⟨hreads.grows, fun i hi => ?_⟩
    cases hi
    exact hreads.wellFormed (next_eq_rule_iff.1 hnext).2
  | unreadable | stray | fault => exact ⟨hreads.grows, fun i hi => by cases hi⟩

theorem grows_after (p : Parser) {m n : ℕ} (h : m ≤ n) : (p.after m).table.Grows (p.after n).table := by
  induction n, h using Nat.le_induction with
  | base => exact .refl _
  | succ n _ ih => exact ih.trans (p.after n).next_wellFormed.1

theorem next_readFailed {cause : Bytes} (h : p.next.1 = .readFailed cause) : p.failure = some cause := by
  obtain ⟨text, rest, s, t, -, -, hend⟩ := p.next_reads
  generalize p.next = result at hend h
  cases hend with
  | close => exact absurd h close_ne_readFailed
  | unreadable hfailure =>
    cases h
    exact hfailure
  | stray | rule | fault => cases h

end Parser

/-! ## Assembling -/

/-- Rules are gathered to the end, and are then valid for the table that was gathered with them, or the
text cannot be read on, or there is one fault. -/
theorem gather_cases (fuel : ℕ) (p : Parser) (code : Array Instruction)
    (hsize : code.size ≤ maxInstructions) (hcode : ∀ i ∈ code.toList, i.Valid p.table.size) :
    (∃ code' t, gather fuel p code = .ok (code', t) ∧ code'.size ≤ maxInstructions ∧
      ∀ i ∈ code'.toList, i.Valid t.size) ∨
    (∃ cause, p.failure = some cause ∧ gather fuel p code = .error (.readFailed cause)) ∨
    ∃ e, gather fuel p code = .error (.faults [e]) := by
  induction fuel generalizing p code with
  | zero => exact .inl ⟨code, p.table, rfl, hsize, hcode⟩
  | succ fuel ih =>
    have hfailure := p.next_failure
    obtain ⟨hgrows, hrule⟩ := p.next_wellFormed
    have hread (cause : Bytes) (h : p.next.1 = .readFailed cause) := Parser.next_readFailed h
    unfold gather
    rcases hnext : p.next with ⟨item, q⟩
    rw [hnext] at hfailure hgrows hrule hread
    have hvalid : ∀ i ∈ code.toList, i.Valid q.table.size := fun i hi => (hcode i hi).mono hgrows.size_le
    cases item with
    | done => exact .inl ⟨code, q.table, rfl, hsize, hvalid⟩
    | readFailed cause => exact .inr (.inl ⟨cause, hread cause rfl, rfl⟩)
    | fault e => exact .inr (.inr ⟨e, rfl⟩)
    | rule i =>
      simp only
      split
      · exact .inr (.inr ⟨_, rfl⟩)
      · next hroom =>
        rw [← hfailure]
        refine ih q (code.push i) (by rw [Array.size_push]; omega) fun j hj => ?_
        rw [Array.toList_push, List.mem_append, List.mem_singleton] at hj
        rcases hj with hj | rfl
        · exact hvalid j hj
        · exact (hrule j rfl).valid

theorem assemble_cases (file text : Bytes) (failure : Option Bytes) :
    (∃ program, assemble file text failure = .ok program) ∨
    (∃ cause, failure = some cause ∧ assemble file text failure = .error (.readFailed cause)) ∨
    ∃ e, assemble file text failure = .error (.faults [e]) := by
  unfold assemble
  have hgather := gather_cases ((Parser.start file text failure .initial).rest.length + 1)
    (.start file text failure .initial) #[] (Nat.zero_le _) (by simp)
  rcases hgather with ⟨code, t, hok, hsize, hvalid⟩ | ⟨cause, hfailure, herror⟩ | ⟨e, herror⟩
  · obtain ⟨program, hbuild, -, -⟩ := build_ok hsize hvalid
    exact .inl ⟨program, by simp only [hok, hbuild]⟩
  · exact .inr (.inl ⟨cause, hfailure, by simp only [herror]⟩)
  · exact .inr (.inr ⟨e, by simp only [herror]⟩)

/-- What the reader returns is well formed, for every text, every table to start with and any number of
calls, also after faults. The table only grows at its end, so that names keep their numbers. A rule has
its two states in the table that is left after its call, one of the two moves, and symbols that are the
blank or a character other than white space and the underscore. Hence a program is never refused once
its rules are read: assembling fails only on a text that cannot be read, or with one fault. -/
theorem results_wellFormed (file text : Bytes) (failure : Option Bytes) (table : StateTable) :
    let p := Parser.start file text failure table
    (∀ m n, m ≤ n →
      (p.after m).table.names.toList <+: (p.after n).table.names.toList ∧
      (∀ id : ℕ, id < (p.after m).table.size → (p.after n).table.name id = (p.after m).table.name id) ∧
      ∀ name id, (p.after m).table.find? name = some id → (p.after n).table.find? name = some id) ∧
    (∀ n i, p.result n = .rule i → i.WellFormed (p.after (n + 1)).table.size) ∧
    ((∃ program, assemble file text failure = .ok program) ∨
      (∃ cause, failure = some cause ∧ assemble file text failure = .error (.readFailed cause)) ∨
      ∃ e, assemble file text failure = .error (.faults [e])) := by
  intro p
  refine ⟨fun m n hmn => ?_, fun n i hi => ?_, assemble_cases file text failure⟩
  · have hgrows := p.grows_after hmn
    exact ⟨hgrows, fun id hid => hgrows.name_eq hid, fun name id hfind => hgrows.find?_eq hfind⟩
  · exact (p.after n).next_wellFormed.2 i hi

end Rules

end LogicMill
