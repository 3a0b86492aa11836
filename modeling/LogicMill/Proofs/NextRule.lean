import LogicMill.Proofs.Reading

/-! # Reading one rule

What a call of `Parser.next` returns, in terms of the grammar of rule text.

* `Phrase.Resolves`: the numbers that the table gives to the names of a phrase.
* `reads_beforeMove_iff`, `reads_completes_iff`, `reads_done_iff`: the stages before the move, at the end
  of a rule and between rules, as texts of the grammar.
* `Parser.next_rule_iff`, `Parser.next_done_iff`: which texts make a call return a rule, or the end.
-/

namespace LogicMill.Rules
set_option autoImplicit false

/-! ## From stages to phrases -/

/-- The numbers and symbols that the reader gets for a phrase, and the table that it leaves. -/
structure Phrase.Resolves (t₀ : StateTable) (phrase : Phrase) (fields : Fields) (t : StateTable) :
    Prop where
  names : ∃ t₁, t₀.intern (Utf8.encode phrase.source) = .ok (fields.source, t₁) ∧
    t₁.intern (Utf8.encode phrase.target) = .ok (fields.target, t)
  read : fields.read = symbolOf phrase.read
  write : fields.write = symbolOf phrase.write

variable {t₀ t : StateTable} {pos₀ : Position} {text : List Char} {i : Instruction}

/-- The stage before the move is reached exactly by a gap and the first four fields of a rule, whose
names the table takes. -/
theorem reads_beforeMove_iff {fields : Fields} (move : Move) :
    Reads t₀ pos₀ text t (.beforeMove fields) ↔
      ∃ g front phrase, Gap g ∧ Phrase.Opens front phrase ∧ text = g ++ front ∧
        phrase.Resolves t₀ fields t ∧ phrase.move = move := by
  constructor
  · intro h
    cases h with
    | @beforeMove _ s₄ _ _ _ _ write _ h hs₄ =>
    cases h with
    | inWrite h hwrite =>
    cases h with
    | @beforeWrite _ s₃ t₁ _ _ _ _ _ h hs₃ htarget =>
    cases h with
    | @inTarget _ target _ _ _ h hw =>
    cases h with
    | @beforeTarget _ s₂ _ _ read _ h hs₂ =>
    cases h with
    | inRead h hread =>
    cases h with
    | @beforeRead _ s₁ _ _ _ _ h hs₁ hsource =>
    cases h with
    | @inSource g source hg hv =>
    refine ⟨g, _, ⟨source, read, target, write, move⟩, hg, .mk hv hs₁ hread hs₂ hw hs₃ hwrite hs₄,
      ?_, ⟨⟨t₁, hsource, htarget⟩, ruleSymbol_eq read, ruleSymbol_eq write⟩, rfl⟩
    simp only [List.append_assoc, List.cons_append, List.nil_append]
  · rintro ⟨g, front, phrase, hg, hfront, rfl, ⟨⟨t₁, hsource, htarget⟩, hread, hwrite⟩, -⟩
    obtain ⟨idSource, symRead, idTarget, symWrite⟩ := fields
    cases hfront with
    | @mk source s₁ s₂ target s₃ s₄ read write move hv hs₁ hr hs₂ hw hs₃ hwr hs₄ =>
    obtain rfl : symRead = ruleSymbol read := hread.trans (ruleSymbol_eq read).symm
    obtain rfl : symWrite = ruleSymbol write := hwrite.trans (ruleSymbol_eq write).symm
    have h₁ : Reads t₀ pos₀ (g ++ source ++ s₁) t₁ (.beforeRead idSource) :=
      .beforeRead (.inSource hg hv) hs₁ hsource
    have h₂ : Reads t₀ pos₀ (g ++ source ++ s₁ ++ [read] ++ s₂) t₁
        (.beforeTarget idSource (ruleSymbol read)) := .beforeTarget (.inRead h₁ hr) hs₂
    have h₃ : Reads t₀ pos₀ (g ++ source ++ s₁ ++ [read] ++ s₂ ++ target ++ s₃) t
        (.beforeWrite idSource (ruleSymbol read) idTarget) := .beforeWrite (.inTarget h₂ hw) hs₃ htarget
    have h₄ := Reads.beforeMove (.inWrite h₃ hwr) hs₄
    simpa only [List.append_assoc, List.cons_append, List.nil_append] using h₄

/-- The rule that a stage holds once its line, or the text, ends. -/
def Stage.Completes : Stage → Instruction → Prop
  | .inMove fields token, i => ∃ move, Token.move? token.chars = some move ∧ i = fields.rule move
  | .afterMove rule, i => i = rule
  | .inRemark rule, i => i = rule
  | _, _ => False

theorem MoveLetter.notBlank {letter : Char} {move : Move} (h : MoveLetter letter move) :
    Text.isBlank letter = false := by
  cases h <;> rfl

theorem internToken_ne_rule {token : Token} {resume : Nat → Stage} :
    internToken t token resume ≠ .rule i := by
  unfold internToken
  split <;> simp

theorem next_eq_rule_iff {stage : Stage} {pos : Position} {c : Char} :
    stage.next t pos c = .rule i ↔ c = '\n' ∧ stage.Completes i := by
  constructor
  · intro h
    cases stage with
    | inMove fields token =>
      simp only [Stage.next] at h
      split at h
      · split at h
        · cases h
        · next move hmove =>
          split at h
          · next hc =>
            cases h
            exact ⟨hc, move, hmove, rfl⟩
          · cases h
      · split at h
        · cases h
        · split at h
          · cases h
          · split at h <;> cases h
    | afterMove rule =>
      simp only [Stage.next] at h
      split at h
      · next hc =>
        cases h
        exact ⟨hc, rfl⟩
      · split_ifs at h
    | inRemark rule =>
      simp only [Stage.next] at h
      split at h
      · next hc =>
        cases h
        exact ⟨hc, rfl⟩
      · cases h
    | inSource token =>
      simp only [Stage.next] at h
      split_ifs at h
      exact absurd h internToken_ne_rule
    | inTarget source read token =>
      simp only [Stage.next] at h
      split_ifs at h
      exact absurd h internToken_ne_rule
    | _ =>
      simp only [Stage.next] at h
      split at h <;> cases h
  · rintro ⟨rfl, h⟩
    cases stage with
    | inMove fields token =>
      obtain ⟨move, hmove, rfl⟩ := h
      simp [Stage.next, hmove, show Text.isBlank '\n' = true from rfl]
    | afterMove rule =>
      obtain rfl : i = rule := h
      rfl
    | inRemark rule =>
      obtain rfl : i = rule := h
      rfl
    | _ => exact absurd h id

theorem close_eq_rule_iff {stage : Stage} {pos : Position} :
    stage.close pos = .rule i ↔ stage.Completes i := by
  cases stage with
  | inMove fields token =>
    simp only [Stage.close, Stage.Completes]
    cases Token.move? token.chars with
    | none => simp
    | some move => simp [eq_comm]
  | afterMove rule => simp [Stage.close, Stage.Completes, eq_comm]
  | inRemark rule => simp [Stage.close, Stage.Completes, eq_comm]
  | _ => simp [Stage.close, Stage.Completes]

/-- A rule can be complete exactly after a gap and the text of a rule. -/
theorem reads_completes_iff :
    (∃ stage, Reads t₀ pos₀ text t stage ∧ stage.Completes i) ↔
      ∃ g body phrase fields, Gap g ∧ Phrase.Written body phrase ∧ text = g ++ body ∧
        phrase.Resolves t₀ fields t ∧ i = fields.rule phrase.move := by
  constructor
  · rintro ⟨stage, h, hi⟩
    -- the three shapes of a complete rule: nothing, padding or a comment after the move
    suffices hshape : ∃ front letter ending fields move, Reads t₀ pos₀ front t (.beforeMove fields) ∧
        MoveLetter letter move ∧ LineEnd ending ∧ text = front ++ letter :: ending ∧
        i = fields.rule move by
      obtain ⟨front, letter, ending, fields, move, hfront, hletter, hending, rfl, rfl⟩ := hshape
      obtain ⟨g, front, phrase, hg, hopens, rfl, hres, rfl⟩ := (reads_beforeMove_iff move).1 hfront
      exact ⟨g, _, phrase, fields, hg, .mk hopens hletter hending, List.append_assoc .., hres, rfl⟩
    cases h with
    | inMove h hw =>
      obtain ⟨move, hmove, rfl⟩ := hi
      obtain ⟨letter, rfl, hletter⟩ := Token.move?_eq_some_iff.1 hmove
      exact ⟨_, letter, [], _, move, h, hletter, .inl (by simp [Padding]), rfl, rfl⟩
    | afterMove h hmove hpad hne =>
      obtain rfl := hi
      exact ⟨_, _, _, _, _, h, hmove, .inl hpad, rfl, rfl⟩
    | @inRemark _ body _ _ _ h hbody =>
      obtain rfl := hi
      cases h with
      | afterSlash h =>
      cases h with
      | @afterMove _ pad _ _ _ _ h hmove hpad hne =>
      refine ⟨_, _, pad ++ '/' :: '/' :: body, _, _, h, hmove, .inr ⟨pad, body, hpad, hbody, rfl⟩, ?_, rfl⟩
      simp
    | attached h hmove hbody =>
      obtain rfl := hi
      exact ⟨_, _, _, _, _, h, hmove, .inr ⟨[], _, by simp [Padding], hbody, rfl⟩, rfl, rfl⟩
    | _ => exact absurd hi id
  · rintro ⟨g, body, phrase, fields, hg, hbody, rfl, hres, rfl⟩
    cases hbody with
    | @mk front ending letter _ hopens hletter hending =>
    have hfront : Reads t₀ pos₀ (g ++ front) t (.beforeMove fields) :=
      (reads_beforeMove_iff phrase.move).2 ⟨g, front, phrase, hg, hopens, rfl, hres, rfl⟩
    rw [← List.append_assoc]
    rcases hending with hpad | ⟨pad, body, hpad, hbody, rfl⟩
    · by_cases hne : ending = []
      · subst hne
        exact ⟨_, .inMove hfront (.one hletter.notBlank), phrase.move, moveLetter_iff.1 hletter, rfl⟩
      · exact ⟨_, .afterMove hfront hletter hpad hne, rfl⟩
    · by_cases hne : pad = []
      · subst hne
        exact ⟨_, .attached hfront hletter hbody, rfl⟩
      · have h := Reads.inRemark (.afterSlash (.afterMove hfront hletter hpad hne)) hbody
        refine ⟨.inRemark (fields.rule phrase.move), ?_, rfl⟩
        simpa using h

/-- Nothing more follows exactly after the closing part of a text. -/
theorem reads_done_iff :
    (∃ stage, Reads t₀ pos₀ text t stage ∧ stage.close (pos₀.past text) = .done) ↔
      Closing text ∧ t = t₀ := by
  constructor
  · rintro ⟨stage, h, hdone⟩
    cases h with
    | gap hg => exact ⟨.inl hg, rfl⟩
    | comment hg hbody => exact ⟨.inr ⟨_, _, hg, hbody, rfl⟩, rfl⟩
    | inMove h hw =>
      simp only [Stage.close] at hdone
      split at hdone <;> cases hdone
    | _ => cases hdone
  · rintro ⟨hg | ⟨front, body, hg, hbody, rfl⟩, rfl⟩
    · exact ⟨_, .gap hg, rfl⟩
    · exact ⟨_, .comment hg hbody, rfl⟩

/-! ## Calls of `Parser.next` -/

/-- The letters begin with a line of the given text, before `rest`, or they are that text. -/
def LineOf (letters : List Utf8.Letter) (text : List Char) (rest : List Utf8.Letter) : Prop :=
  letters = (text ++ ['\n']).map .char ++ rest ∨ letters = text.map .char ∧ rest = []

theorem LineOf.length_lt {letters rest : List Utf8.Letter} {text : List Char}
    (h : LineOf letters text rest) (htext : 0 < text.length) : rest.length < letters.length := by
  rcases h with rfl | ⟨rfl, rfl⟩
  · rw [List.length_append, List.length_map, List.length_append]
    omega
  · rwa [List.length_map]

namespace Parser

variable {p : Parser} {rest : List Utf8.Letter}

/-- A call returns a rule exactly when the text that is left begins with a gap and a rule, which ends
with its line or with the text. -/
theorem next_rule_iff (hp : p.failure = none) :
    (∃ last pos, p.next = (.rule i, ⟨rest, none, last, pos, t⟩)) ↔
      ∃ g body phrase fields, Gap g ∧ Phrase.Written body phrase ∧
        phrase.Resolves p.table fields t ∧ i = fields.rule phrase.move ∧
        LineOf p.rest (g ++ body) rest := by
  obtain ⟨letters, failure, last₀, pos₀, t₀⟩ := p
  obtain rfl : failure = none := hp
  simp only [next]
  constructor
  · rintro ⟨last, pos, h⟩
    obtain ⟨text, tail, stage, t', rfl, hwalk, hend⟩ :=
      scan_cases none .beforeSource t₀ last₀ pos₀ letters
    have hreads := reads_iff_walks.2 hwalk
    rw [h] at hend
    generalize hres : (Item.rule i, Parser.mk rest none last pos t) = res at hend
    cases hend with
    | close =>
      obtain ⟨hi, hrest, -, -, rfl⟩ : Item.rule i = stage.close _ ∧ rest = [] ∧ _ := by
        simpa using hres
      obtain ⟨g, body, phrase, fields, hg, hbody, rfl, hresolves, rfl⟩ :=
        reads_completes_iff.1 ⟨stage, hreads, close_eq_rule_iff.1 hi.symm⟩
      exact ⟨g, body, phrase, fields, hg, hbody, hresolves, rfl, .inr ⟨by simp, hrest⟩⟩
    | rule hnext =>
      cases hres
      obtain ⟨rfl, hcompletes⟩ := next_eq_rule_iff.1 hnext
      obtain ⟨g, body, phrase, fields, hg, hbody, rfl, hresolves, rfl⟩ :=
        reads_completes_iff.1 ⟨stage, hreads, hcompletes⟩
      exact ⟨g, body, phrase, fields, hg, hbody, hresolves, rfl, .inl (by simp)⟩
    | unreadable hfailure => cases hfailure
    | stray => cases hres
    | fault => cases hres
  · rintro ⟨g, body, phrase, fields, hg, hbody, hresolves, rfl, hrest⟩
    obtain ⟨stage, hreads, hcompletes⟩ : ∃ stage, Reads t₀ pos₀ (g ++ body) t stage ∧
        stage.Completes (fields.rule phrase.move) :=
      reads_completes_iff.2 ⟨g, body, phrase, fields, hg, hbody, rfl, hresolves, rfl⟩
    rcases hrest with rfl | ⟨rfl, rfl⟩
    · have hend : Ends none stage t (pos₀.past (g ++ body)) (.char '\n' :: rest) _ :=
        .rule (next_eq_rule_iff.2 ⟨rfl, hcompletes⟩)
      have htext : (g ++ body ++ ['\n']).map Utf8.Letter.char ++ rest =
          (g ++ body).map .char ++ .char '\n' :: rest := by simp
      rw [htext]
      exact ⟨_, _, scan_of_ends hreads.walks hend last₀⟩
    · have hend : Ends none stage t (pos₀.past (g ++ body)) [] _ := .close rfl
      rw [close_eq_rule_iff.2 hcompletes] at hend
      have h := scan_of_ends hreads.walks hend last₀
      rw [List.append_nil] at h
      exact ⟨_, _, h⟩

/-- A call finds no more rule exactly on the closing part of a text. -/
theorem next_done_iff (hp : p.failure = none) :
    (∃ last pos, p.next = (.done, ⟨rest, none, last, pos, t⟩)) ↔
      ∃ text, Closing text ∧ p.rest = text.map .char ∧ rest = [] ∧ t = p.table := by
  obtain ⟨letters, failure, last₀, pos₀, t₀⟩ := p
  obtain rfl : failure = none := hp
  simp only [next]
  constructor
  · rintro ⟨last, pos, h⟩
    obtain ⟨text, tail, stage, t', rfl, hwalk, hend⟩ :=
      scan_cases none .beforeSource t₀ last₀ pos₀ letters
    rw [h] at hend
    generalize hres : (Item.done, Parser.mk rest none last pos t) = res at hend
    cases hend with
    | close =>
      obtain ⟨hi, hrest, -, -, rfl⟩ : Item.done = stage.close _ ∧ rest = [] ∧ _ := by
        simpa using hres
      obtain ⟨hclosing, rfl⟩ := reads_done_iff.1 ⟨stage, reads_iff_walks.2 hwalk, hi.symm⟩
      exact ⟨text, hclosing, by simp, hrest, rfl⟩
    | unreadable hfailure => cases hfailure
    | stray => cases hres
    | rule => cases hres
    | fault => cases hres
  · rintro ⟨text, hclosing, rfl, rfl, rfl⟩
    obtain ⟨stage, hreads, hdone⟩ : ∃ stage, Reads t pos₀ text t stage ∧
        stage.close (pos₀.past text) = .done := reads_done_iff.2 ⟨hclosing, rfl⟩
    have hend : Ends none stage t (pos₀.past text) [] _ := .close rfl
    rw [hdone] at hend
    have h := scan_of_ends hreads.walks hend last₀
    rw [List.append_nil] at h
    exact ⟨_, _, h⟩

end Parser

end LogicMill.Rules
