import LogicMill.Proofs.NextRule
import LogicMill.Proofs.Utf8
import LogicMill.Rules.Assembler

/-! # Programs from rule text

Assembling a text gives a program exactly when the text is in the grammar and within the limits, and
the program is the meaning of its rules.

* `Phrase.Resolves.instruction_eq`, `Resolved.code_eq`: what the reader gets for phrases is their
  instructions, over the names in the order in which they occur.
* `gather_of_ruleText`, `ruleText_of_gather`: reading rule after rule, in both directions.
* `assemble_ok_iff`: the texts that make a program, and the program that they make.
-/

namespace LogicMill.Rules
set_option autoImplicit false

/-! ## The meaning of phrases -/

/-- What holds of the phrases of every rule text. -/
structure Phrase.Legible (phrase : Phrase) : Prop where
  source : FirstField phrase.source
  read : Text.isBlank phrase.read = false
  target : Field phrase.target
  write : Text.isBlank phrase.write = false
  move : phrase.move = .left ∨ phrase.move = .right

theorem Phrase.Written.legible {text : List Char} {phrase : Phrase} (h : Phrase.Written text phrase) :
    phrase.Legible := by
  obtain ⟨source, read, target, write, move⟩ := phrase
  cases h with
  | mk hopens hmove hending =>
  cases hopens with
  | mk hsource _ hread _ htarget _ hwrite _ =>
    refine ⟨hsource, hread, htarget, hwrite, ?_⟩
    cases hmove with
    | left => exact .inl rfl
    | right => exact .inr rfl

theorem RuleText.legible {text : List Char} {phrases : List Phrase} (h : RuleText text phrases) :
    ∀ phrase ∈ phrases, phrase.Legible := by
  induction h with
  | closing _ => simp
  | last _ h => simpa using h.legible
  | rule _ h _ ih => simpa using ⟨h.legible, ih⟩

theorem Field.count_pos {w : List Char} (h : Field w) : 0 < Utf8.count (Utf8.encode w) := by
  rw [Utf8.count_encode]
  exact List.length_pos_iff.2 h.ne_nil

theorem Field.count_le {w : List Char} (h : Field w) :
    Utf8.count (Utf8.encode w) ≤ maxNameLength := by
  rw [Utf8.count_encode]
  exact h.length_le

theorem Phrase.instruction_mentioned {phrase : Phrase} {mentioned : List Bytes}
    (h : ∀ name ∈ phrase.names, name ∈ mentioned) (more : List Bytes) :
    phrase.instruction (mentioned ++ more).eraseDups = phrase.instruction mentioned.eraseDups := by
  unfold Phrase.instruction
  rw [StateTable.idxOf_mentioned (h _ (by simp [Phrase.names])) more,
    StateTable.idxOf_mentioned (h _ (by simp [Phrase.names])) more]

section Resolving

variable {t t' : StateTable} {mentioned : List Bytes} {phrase : Phrase} {fields : Fields}

/-- What the reader gets for a phrase is its instruction, the states being numbered by their place
among the names mentioned. -/
theorem Phrase.Resolves.instruction_eq (h : phrase.Resolves t fields t') (hlegible : phrase.Legible)
    (ht : t.Holds mentioned) :
    t'.Holds (mentioned ++ phrase.names) ∧
      fields.rule phrase.move = phrase.instruction (mentioned ++ phrase.names).eraseDups := by
  obtain ⟨⟨t₁, hsource, htarget⟩, hread, hwrite⟩ := h
  obtain ⟨ht₁, hid₁⟩ := ht.of_intern hlegible.source.toField.count_pos hlegible.source.toField.count_le hsource
  obtain ⟨ht₂, hid₂⟩ := ht₁.of_intern hlegible.target.count_pos hlegible.target.count_le htarget
  rw [List.append_assoc] at ht₂ hid₂
  refine ⟨ht₂, ?_⟩
  have hin : Utf8.encode phrase.source ∈ mentioned ++ [Utf8.encode phrase.source] := by simp
  have hstable := StateTable.idxOf_mentioned hin [Utf8.encode phrase.target]
  rw [List.append_assoc] at hstable
  simp only [Fields.rule, Phrase.instruction, Phrase.names, hread, hwrite, hid₁, hid₂]
  rw [← hstable]
  rfl

theorem Phrase.exists_resolves (hlegible : phrase.Legible) (ht : t.Holds mentioned)
    (hroom : (mentioned ++ phrase.names).eraseDups.length ≤ maxStates) :
    ∃ fields t', phrase.Resolves t fields t' := by
  have hsplit : mentioned ++ phrase.names =
      mentioned ++ [Utf8.encode phrase.source] ++ [Utf8.encode phrase.target] := by
    simp [Phrase.names]
  rw [hsplit] at hroom
  obtain ⟨t₁, hsource, ht₁⟩ := ht.intern_ok hlegible.source.toField.count_pos hlegible.source.toField.count_le
    ((StateTable.length_mentioned_le _ _).trans hroom)
  obtain ⟨t₂, htarget, -⟩ := ht₁.intern_ok hlegible.target.count_pos hlegible.target.count_le hroom
  exact ⟨⟨_, symbolOf phrase.read, _, symbolOf phrase.write⟩, t₂, ⟨t₁, hsource, htarget⟩, rfl, rfl⟩

end Resolving

/-- The instructions that the reader gets for the phrases of a text, one after another. -/
inductive Resolved : StateTable → List Phrase → List Instruction → StateTable → Prop
  | nil {t : StateTable} : Resolved t [] [] t
  | cons {t t₁ t₂ : StateTable} {phrase : Phrase} {phrases : List Phrase} {fields : Fields}
      {code : List Instruction} (h : phrase.Resolves t fields t₁) (hrest : Resolved t₁ phrases code t₂) :
      Resolved t (phrase :: phrases) (fields.rule phrase.move :: code) t₂

theorem Resolved.code_eq {t t' : StateTable} {phrases : List Phrase} {code : List Instruction}
    (h : Resolved t phrases code t') {mentioned : List Bytes} (ht : t.Holds mentioned)
    (hlegible : ∀ phrase ∈ phrases, phrase.Legible) :
    t'.Holds (mentioned ++ phrases.flatMap Phrase.names) ∧
      code = phrases.map (Phrase.instruction (mentioned ++ phrases.flatMap Phrase.names).eraseDups) := by
  induction h generalizing mentioned with
  | nil => exact ⟨by simpa using ht, rfl⟩
  | @cons t t₁ t₂ phrase phrases fields code h _ ih =>
    obtain ⟨ht₁, hrule⟩ := h.instruction_eq (hlegible phrase (List.mem_cons_self ..)) ht
    obtain ⟨ht₂, hcode⟩ := ih ht₁ fun q hq => hlegible q (List.mem_cons_of_mem phrase hq)
    rw [List.flatMap_cons, ← List.append_assoc]
    refine ⟨ht₂, ?_⟩
    rw [List.map_cons, ← hcode, hrule, Phrase.instruction_mentioned fun name h =>
      List.mem_append_right _ h]

theorem exists_resolved {phrases : List Phrase} {t : StateTable} {mentioned : List Bytes}
    (ht : t.Holds mentioned) (hlegible : ∀ phrase ∈ phrases, phrase.Legible)
    (hroom : (mentioned ++ phrases.flatMap Phrase.names).eraseDups.length ≤ maxStates) :
    ∃ code t', Resolved t phrases code t' := by
  induction phrases generalizing t mentioned with
  | nil => exact ⟨[], t, .nil⟩
  | cons phrase phrases ih =>
    rw [List.flatMap_cons, ← List.append_assoc] at hroom
    have hphrase := hlegible phrase (List.mem_cons_self ..)
    obtain ⟨fields, t₁, h⟩ := Phrase.exists_resolves hphrase ht
      ((StateTable.length_mentioned_le _ _).trans hroom)
    obtain ⟨code, t₂, hrest⟩ := ih (h.instruction_eq hphrase ht).1
      (fun q hq => hlegible q (List.mem_cons_of_mem phrase hq)) hroom
    exact ⟨_, t₂, .cons h hrest⟩

/-! ## Gathering rules -/

theorem Parser.next_failure (p : Parser) : p.next.2.failure = p.failure := by
  obtain ⟨text, rest, s, t, -, -, hend⟩ :=
    Parser.scan_cases p.failure .beforeSource p.table p.last p.pos p.rest
  rw [Parser.next]
  generalize Parser.scan p.failure .beforeSource p.table p.last p.pos p.rest = result at hend
  cases hend <;> rfl

theorem Phrase.Written.length_pos {text : List Char} {phrase : Phrase}
    (h : Phrase.Written text phrase) : 0 < text.length := by
  cases h
  simp

theorem RuleText.eq_nil {text : List Char} {phrases : List Phrase} (h : RuleText text phrases)
    (htext : text = []) : phrases = [] := by
  cases h with
  | closing _ => rfl
  | last _ h =>
    have := h.length_pos
    simp_all
  | rule _ _ _ => simp at htext

section Gathering

variable {fuel : Nat} {p : Parser} {code code' : Array Instruction} {t : StateTable}

/-- One rule is gathered where the text that is left begins with it. -/
theorem gather_rule {rest : List Utf8.Letter} {g body : List Char} {phrase : Phrase} {fields : Fields}
    (hp : p.failure = none) (hg : Gap g) (hbody : Phrase.Written body phrase)
    (hres : phrase.Resolves p.table fields t) (hrest : LineOf p.rest (g ++ body) rest)
    (hroom : code.size < maxInstructions) :
    ∃ last pos, gather (fuel + 1) p code =
      gather fuel ⟨rest, none, last, pos, t⟩ (code.push (fields.rule phrase.move)) := by
  obtain ⟨last, pos, hnext⟩ :=
    (Parser.next_rule_iff hp).2 ⟨g, body, phrase, fields, hg, hbody, hres, rfl, hrest⟩
  refine ⟨last, pos, ?_⟩
  rw [gather, hnext]
  simp only [if_neg (Nat.not_le_of_lt hroom)]

/-- The rules of a rule text are gathered. -/
theorem gather_of_ruleText {text : List Char} {phrases : List Phrase} {more : List Instruction}
    (hp : p.failure = none) (hfuel : p.rest.length < fuel) (hrest : p.rest = text.map .char)
    (htext : RuleText text phrases) (hresolved : Resolved p.table phrases more t)
    (hsize : code.size + phrases.length ≤ maxInstructions) :
    gather fuel p code = .ok (code ++ more.toArray, t) := by
  induction fuel generalizing p code text phrases more with
  | zero => exact absurd hfuel (Nat.not_lt_zero _)
  | succ fuel ih =>
    -- the rules after one that ends the text are those of the empty text
    have hstep : ∀ {g body rest : List Char} {phrase : Phrase} {phrases : List Phrase}, Gap g →
        Phrase.Written body phrase → LineOf p.rest (g ++ body) (rest.map .char) →
        RuleText rest phrases → Resolved p.table (phrase :: phrases) more t →
        code.size + (phrase :: phrases).length ≤ maxInstructions →
        gather (fuel + 1) p code = .ok (code ++ more.toArray, t) := by
      intro g body rest phrase phrases hg hbody hline htext hresolved hsize
      rw [List.length_cons] at hsize
      cases hresolved with
      | cons hres hmore =>
        have hlen := hline.length_lt (by simp [hbody.length_pos])
        have hroom : code.size < maxInstructions := by omega
        obtain ⟨last, pos, heq⟩ := gather_rule hp hg hbody hres hline hroom
        rw [heq, ih rfl (by simp only; omega) rfl htext hmore (by rw [Array.size_push]; omega)]
        simp
    cases htext with
    | closing hclosing =>
      cases hresolved
      obtain ⟨last, pos, hnext⟩ := (Parser.next_done_iff hp).2 ⟨text, hclosing, hrest, rfl, rfl⟩
      rw [gather, hnext]
      simp
    | last hg hbody =>
      exact hstep hg hbody (.inr ⟨hrest, rfl⟩) (.closing (.inl .nil)) hresolved hsize
    | rule hg hbody htext =>
      exact hstep hg hbody (.inl (by rw [hrest]; simp)) htext hresolved hsize

/-- Rules are only gathered from a rule text. -/
theorem ruleText_of_gather (hp : p.failure = none) (hfuel : p.rest.length < fuel)
    (hcode : code.size ≤ maxInstructions) (h : gather fuel p code = .ok (code', t)) :
    ∃ text phrases more, p.rest = text.map .char ∧ RuleText text phrases ∧
      Resolved p.table phrases more t ∧ code'.toList = code.toList ++ more ∧
      code'.size ≤ maxInstructions := by
  induction fuel generalizing p code with
  | zero => exact absurd hfuel (Nat.not_lt_zero _)
  | succ fuel ih =>
    unfold gather at h
    have hfailure := p.next_failure
    rcases hnext : p.next with ⟨item, ⟨rest, failure, last, pos, t₁⟩⟩
    rw [hnext, hp] at hfailure
    obtain rfl : failure = none := hfailure
    rw [hnext] at h
    cases item with
    | readFailed cause => cases h
    | fault e => cases h
    | done =>
      cases h
      obtain ⟨text, hclosing, hrest, -, rfl⟩ := (Parser.next_done_iff hp).1 ⟨last, pos, hnext⟩
      exact ⟨text, [], [], hrest, .closing hclosing, .nil, by simp, hcode⟩
    | rule i =>
      simp only at h
      split at h
      · cases h
      · next hroom =>
        obtain ⟨g, body, phrase, fields, hg, hbody, hres, rfl, hline⟩ :=
          (Parser.next_rule_iff hp).1 ⟨last, pos, hnext⟩
        have hlen := hline.length_lt (by simp [hbody.length_pos])
        obtain ⟨text, phrases, more, rfl, htext, hmore, hcode', hsize⟩ :=
          @ih ⟨rest, none, last, pos, t₁⟩ _ rfl (by simp only; omega)
            (by rw [Array.size_push]; omega) h
        rw [Array.toList_push, List.append_assoc] at hcode'
        have hresolved := Resolved.cons hres hmore
        rcases hline with hline | ⟨hline, hnil⟩
        · exact ⟨_, _, _, by rw [hline]; simp, .rule hg hbody htext, hresolved, hcode', hsize⟩
        · obtain rfl : phrases = [] := htext.eq_nil (by simpa using hnil)
          exact ⟨_, _, _, hline, .last hg hbody, hresolved, hcode', hsize⟩

end Gathering

/-! ## Assembling -/

theorem faultFrom?_eq_none {states : Nat} {code : List Instruction}
    (h : ∀ i ∈ code, i.Valid states) : ∀ number, faultFrom? states number code = none := by
  induction code with
  | nil => exact fun _ => rfl
  | cons i code ih =>
    intro number
    obtain ⟨hstates, hmove⟩ := h i (List.mem_cons_self ..)
    have hfault : i.fault? states number = none := by
      simp [Instruction.fault?, hstates, hmove]
    rw [faultFrom?, hfault]
    exact ih (fun j hj => h j (List.mem_cons_of_mem i hj)) (number + 1)

theorem build_ok {states : StateTable} {code : Array Instruction} (hsize : code.size ≤ maxInstructions)
    (h : ∀ i ∈ code.toList, i.Valid states.size) :
    ∃ program, Program.build states code = .ok program ∧ program.code = code ∧
      program.states = states := by
  unfold Program.build
  rw [dif_pos hsize]
  split
  · next e hfault =>
    rw [faultFrom?_eq_none h] at hfault
    cases hfault
  · exact ⟨_, rfl, rfl, rfl⟩

theorem build_eq_ok {states : StateTable} {code : Array Instruction} {program : Program}
    (h : Program.build states code = .ok program) : program.code = code ∧ program.states = states := by
  unfold Program.build at h
  split at h
  · split at h
    · cases h
    · cases h
      exact ⟨rfl, rfl⟩
  · cases h

/-- The instruction of a phrase is valid where its names are numbered. -/
theorem Phrase.Legible.valid {phrase : Phrase} {names : List Bytes} (h : phrase.Legible)
    (hnames : ∀ name ∈ phrase.names, name ∈ names) :
    (phrase.instruction names).Valid names.length := by
  have hsource := List.idxOf_lt_length_of_mem (hnames (Utf8.encode phrase.source) (by simp [Phrase.names]))
  have htarget := List.idxOf_lt_length_of_mem (hnames (Utf8.encode phrase.target) (by simp [Phrase.names]))
  exact ⟨⟨⟨Int.natCast_nonneg _, Int.ofNat_lt.2 hsource⟩, Int.natCast_nonneg _,
    Int.ofNat_lt.2 htarget⟩, h.move⟩

/-- A program is only made of a rule text, within the limits. -/
theorem ruleText_of_assemble {file text : Bytes} {program : Program}
    (h : assemble file text none = .ok program) :
    ∃ chars phrases, text = Utf8.encode chars ∧ RuleText chars phrases ∧
      phrases.length ≤ maxInstructions ∧ (stateNames phrases).length ≤ maxStates ∧
      program.code.toList = phrases.map (Phrase.instruction (stateNames phrases)) ∧
      program.states.names.toList = stateNames phrases := by
  unfold assemble at h
  simp only at h
  split at h
  · cases h
  · next code t hgather =>
    split at h
    · next program' hbuild =>
      cases h
      obtain ⟨chars, phrases, more, hrest, htext, hresolved, hcode, hsize⟩ :=
        ruleText_of_gather rfl (Nat.lt_succ_self _) (Nat.zero_le _) hgather
      obtain ⟨ht, hmore⟩ := hresolved.code_eq StateTable.holds_initial htext.legible
      obtain ⟨hpcode, hpstates⟩ := build_eq_ok hbuild
      have hlist : program.code.toList = phrases.map (Phrase.instruction (stateNames phrases)) := by
        rw [hpcode, hcode, hmore]
        rfl
      refine ⟨chars, phrases, Utf8.decode_eq_map_char_iff.1 hrest, htext, ?_, ht.length_le, hlist, ?_⟩
      · rw [← Array.length_toList, ← hpcode, hlist, List.length_map] at hsize
        exact hsize
      · rw [hpstates]
        exact ht.names_eq
    · cases h

/-- A rule text within the limits makes a program. -/
theorem assemble_of_ruleText {chars : List Char} {phrases : List Phrase} (file : Bytes)
    (htext : RuleText chars phrases) (hrules : phrases.length ≤ maxInstructions)
    (hstates : (stateNames phrases).length ≤ maxStates) :
    ∃ program, assemble file (Utf8.encode chars) none = .ok program ∧
      program.code.toList = phrases.map (Phrase.instruction (stateNames phrases)) ∧
      program.states.names.toList = stateNames phrases := by
  obtain ⟨code, t, hresolved⟩ := exists_resolved StateTable.holds_initial htext.legible hstates
  obtain ⟨ht, hcode⟩ := hresolved.code_eq StateTable.holds_initial htext.legible
  obtain rfl : code = phrases.map (Phrase.instruction (stateNames phrases)) := hcode
  have hgather : gather _ (.start file (Utf8.encode chars) none .initial) #[] = _ :=
    gather_of_ruleText rfl (Nat.lt_succ_self _) (Utf8.decode_encode chars) htext hresolved
      (by simpa using hrules)
  rw [Array.empty_append] at hgather
  have hvalid : ∀ i ∈ phrases.map (Phrase.instruction (stateNames phrases)), i.Valid t.size := by
    intro i hi
    obtain ⟨phrase, hphrase, rfl⟩ := List.mem_map.1 hi
    rw [← ht.length_eq]
    refine (htext.legible phrase hphrase).valid fun name hname => List.mem_eraseDups.2 ?_
    exact List.mem_append_right _ (List.mem_flatMap.2 ⟨phrase, hphrase, hname⟩)
  obtain ⟨program, hbuild, hpcode, hpstates⟩ := build_ok (by simpa using hrules) hvalid
  refine ⟨program, ?_, by rw [hpcode], by rw [hpstates]; exact ht.names_eq⟩
  unfold assemble
  simp only [hgather, hbuild]

/-- Assembling succeeds exactly on the encodings of rule texts with at most `maxInstructions` rules and
`maxStates` distinct state names. The program then holds the instructions of these rules in order, over
the table of these names. -/
theorem assemble_ok_iff (file text : Bytes) (code : List Instruction) (names : List Bytes) :
    (∃ program, assemble file text none = .ok program ∧ program.code.toList = code ∧
        program.states.names.toList = names) ↔
      ∃ chars phrases, text = Utf8.encode chars ∧ RuleText chars phrases ∧
        phrases.length ≤ maxInstructions ∧ (stateNames phrases).length ≤ maxStates ∧
        code = phrases.map (Phrase.instruction (stateNames phrases)) ∧ names = stateNames phrases := by
  constructor
  · rintro ⟨program, h, rfl, rfl⟩
    exact ruleText_of_assemble h
  · rintro ⟨chars, phrases, rfl, htext, hrules, hstates, rfl, rfl⟩
    exact assemble_of_ruleText file htext hrules hstates

end LogicMill.Rules
