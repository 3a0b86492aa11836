import LogicMill.Proofs.Grammar
import LogicMill.Proofs.Scan

/-! # What the reader has read

The text that leads the reader to a stage, one production for each stage, and the proof that it is
exactly the text over which the reader walks there.

* `MoveField`: what a move field may look like while it is being read.
* `Reads`: the texts that lead to a stage.
* `Reads.next`: one more character is one more step in the productions.
* `Reads.walks`, `reads_iff_walks`: the productions describe all walks from the start of a rule.
-/

namespace LogicMill.Rules
set_option autoImplicit false

/-! ## Fields grow at their end -/

theorem Field.one {c : Char} (hc : Text.isBlank c = false) : Field [c] where
  ne_nil := List.cons_ne_nil c []
  length_le := by simp [maxNameLength]
  notBlank := by simpa using hc

theorem Field.push {w : List Char} {c : Char} (h : Field w) (hlen : ¬ maxNameLength ≤ w.length)
    (hc : Text.isBlank c = false) : Field (w ++ [c]) where
  ne_nil := by simp
  length_le := by
    rw [List.length_append, List.length_singleton]
    omega
  notBlank := by
    intro d hd
    rcases List.mem_append.1 hd with hd | hd
    · exact h.notBlank d hd
    · rwa [List.mem_singleton.1 hd]

theorem Field.pop {w : List Char} {c : Char} (hw : w ≠ []) (h : Field (w ++ [c])) : Field w where
  ne_nil := hw
  length_le := by
    have := h.length_le
    rw [List.length_append] at this
    omega
  notBlank := fun d hd => h.notBlank d (List.mem_append_left _ hd)

theorem Field.last {w : List Char} {c : Char} (h : Field (w ++ [c])) :
    ¬ maxNameLength ≤ w.length ∧ Text.isBlank c = false := by
  have := h.length_le
  rw [List.length_append, List.length_singleton] at this
  exact ⟨by omega, h.notBlank c (by simp)⟩

theorem FirstField.one {c : Char} (hc : Text.isBlank c = false) : FirstField [c] where
  toField := .one hc
  noComment := fun h => by simpa using h.length_le

theorem FirstField.push {w : List Char} {c : Char} (h : FirstField w)
    (hlen : ¬ maxNameLength ≤ w.length) (hc : Text.isBlank c = false)
    (hslash : ¬ (w = ['/'] ∧ c = '/')) : FirstField (w ++ [c]) where
  toField := h.toField.push hlen hc
  noComment := by
    intro hpre
    rcases List.prefix_concat_iff.1 hpre with heq | hpre
    · have hsplit : ['/'] ++ ['/'] = w ++ [c] := heq
      obtain ⟨hw, hc⟩ := List.append_inj' hsplit rfl
      exact hslash ⟨hw.symm, by simpa using hc.symm⟩
    · exact h.noComment hpre

theorem FirstField.pop {w : List Char} {c : Char} (hw : w ≠ []) (h : FirstField (w ++ [c])) :
    FirstField w where
  toField := h.toField.pop hw
  noComment := fun hpre => h.noComment (hpre.trans (List.prefix_append w [c]))

theorem Spacing.one {c : Char} (hc : Text.isBlank c = true) : Spacing [c] where
  ne_nil := List.cons_ne_nil c []
  blank := by simpa using hc

theorem Spacing.push {s : List Char} {c : Char} (h : Spacing s) (hc : Text.isBlank c = true) :
    Spacing (s ++ [c]) where
  ne_nil := by simp
  blank := by
    intro d hd
    rcases List.mem_append.1 hd with hd | hd
    · exact h.blank d hd
    · rwa [List.mem_singleton.1 hd]

/-! ## Move fields -/

/-- A move field while it is being read: two slashes after its first character would have ended it. -/
structure MoveField (text : List Char) : Prop extends Field text where
  noRemark : ∀ front rest, text = front ++ '/' :: '/' :: rest → front = []

theorem Token.beforeComment?_eq_some_iff {chars front : List Char} :
    Token.beforeComment? chars = some front ↔ front ≠ [] ∧ chars = front ++ ['/', '/'] := by
  constructor
  · intro h
    unfold Token.beforeComment? at h
    split at h
    · next c rest hrev =>
      cases h
      refine ⟨by simp, ?_⟩
      rw [← List.reverse_reverse chars, hrev]
      simp
    · cases h
  · rintro ⟨hne, rfl⟩
    obtain ⟨front, c, rfl⟩ := List.eq_nil_or_concat front |>.resolve_left hne
    simp [Token.beforeComment?]

theorem MoveField.one {c : Char} (hc : Text.isBlank c = false) : MoveField [c] where
  toField := .one hc
  noRemark := by
    intro front rest h
    have := congrArg List.length h
    simp at this
    omega

theorem MoveField.push {w : List Char} {c : Char} (h : MoveField w)
    (hlen : ¬ maxNameLength ≤ w.length) (hc : Text.isBlank c = false)
    (hremark : Token.beforeComment? (w ++ [c]) = none) : MoveField (w ++ [c]) where
  toField := h.toField.push hlen hc
  noRemark := by
    intro front rest heq
    rcases List.eq_nil_or_concat rest with rfl | ⟨rest, d, rfl⟩
    · by_contra hne
      rw [Token.beforeComment?_eq_some_iff.2 ⟨hne, heq⟩] at hremark
      cases hremark
    · refine h.noRemark front rest ?_
      rw [List.concat_eq_append, ← List.cons_append, ← List.cons_append, ← List.append_assoc] at heq
      exact (List.append_inj' heq rfl).1

theorem MoveField.pop {w : List Char} {c : Char} (hw : w ≠ []) (h : MoveField (w ++ [c])) :
    MoveField w where
  toField := h.toField.pop hw
  noRemark := fun front rest heq => h.noRemark front (rest ++ [c]) (by simp [heq])

theorem MoveField.last {w : List Char} {c : Char} (h : MoveField (w ++ [c])) :
    Token.beforeComment? (w ++ [c]) = none := by
  cases hfront : Token.beforeComment? (w ++ [c]) with
  | none => rfl
  | some front =>
    obtain ⟨hne, heq⟩ := Token.beforeComment?_eq_some_iff.1 hfront
    exact absurd (h.noRemark front [] heq) hne

/-! ## Productions -/

/-- `Reads t₀ pos₀ text t stage`: from the start of a rule at `pos₀` with table `t₀`, the text `text`
leads to the stage `stage` with the table `t`. Each production adds one part of a rule. -/
inductive Reads (t₀ : StateTable) (pos₀ : Position) : List Char → StateTable → Stage → Prop
  | gap {g : List Char} (hg : Gap g) : Reads t₀ pos₀ g t₀ .beforeSource
  | comment {g body : List Char} (hg : Gap g) (hbody : '\n' ∉ body) :
      Reads t₀ pos₀ (g ++ '/' :: '/' :: body) t₀ .inComment
  | inSource {g w : List Char} (hg : Gap g) (hw : FirstField w) :
      Reads t₀ pos₀ (g ++ w) t₀ (.inSource ⟨w, pos₀.past g⟩)
  | beforeRead {text s : List Char} {t t' : StateTable} {token : Token} {source : Nat}
      (h : Reads t₀ pos₀ text t (.inSource token)) (hs : Spacing s)
      (hid : t.intern token.text = .ok (source, t')) :
      Reads t₀ pos₀ (text ++ s) t' (.beforeRead source)
  | inRead {text : List Char} {t : StateTable} {source : Nat} {c : Char}
      (h : Reads t₀ pos₀ text t (.beforeRead source)) (hc : Text.isBlank c = false) :
      Reads t₀ pos₀ (text ++ [c]) t (.inRead source c (pos₀.past text))
  | beforeTarget {text s : List Char} {t : StateTable} {source : Nat} {c : Char} {start : Position}
      (h : Reads t₀ pos₀ text t (.inRead source c start)) (hs : Spacing s) :
      Reads t₀ pos₀ (text ++ s) t (.beforeTarget source (ruleSymbol c))
  | inTarget {text w : List Char} {t : StateTable} {source : Nat} {read : Symbol}
      (h : Reads t₀ pos₀ text t (.beforeTarget source read)) (hw : Field w) :
      Reads t₀ pos₀ (text ++ w) t (.inTarget source read ⟨w, pos₀.past text⟩)
  | beforeWrite {text s : List Char} {t t' : StateTable} {source target : Nat} {read : Symbol}
      {token : Token} (h : Reads t₀ pos₀ text t (.inTarget source read token)) (hs : Spacing s)
      (hid : t.intern token.text = .ok (target, t')) :
      Reads t₀ pos₀ (text ++ s) t' (.beforeWrite source read target)
  | inWrite {text : List Char} {t : StateTable} {source target : Nat} {read : Symbol} {c : Char}
      (h : Reads t₀ pos₀ text t (.beforeWrite source read target)) (hc : Text.isBlank c = false) :
      Reads t₀ pos₀ (text ++ [c]) t (.inWrite source read target c (pos₀.past text))
  | beforeMove {text s : List Char} {t : StateTable} {source target : Nat} {read : Symbol} {c : Char}
      {start : Position} (h : Reads t₀ pos₀ text t (.inWrite source read target c start))
      (hs : Spacing s) :
      Reads t₀ pos₀ (text ++ s) t (.beforeMove ⟨source, read, target, ruleSymbol c⟩)
  | inMove {text w : List Char} {t : StateTable} {fields : Fields}
      (h : Reads t₀ pos₀ text t (.beforeMove fields)) (hw : MoveField w) :
      Reads t₀ pos₀ (text ++ w) t (.inMove fields ⟨w, pos₀.past text⟩)
  | afterMove {text pad : List Char} {t : StateTable} {fields : Fields} {letter : Char} {move : Move}
      (h : Reads t₀ pos₀ text t (.beforeMove fields)) (hmove : MoveLetter letter move)
      (hpad : Padding pad) (hne : pad ≠ []) :
      Reads t₀ pos₀ (text ++ letter :: pad) t (.afterMove (fields.rule move))
  | afterSlash {text : List Char} {t : StateTable} {rule : Instruction}
      (h : Reads t₀ pos₀ text t (.afterMove rule)) :
      Reads t₀ pos₀ (text ++ ['/']) t (.afterSlash rule (pos₀.past text))
  | inRemark {text body : List Char} {t : StateTable} {rule : Instruction} {start : Position}
      (h : Reads t₀ pos₀ text t (.afterSlash rule start)) (hbody : '\n' ∉ body) :
      Reads t₀ pos₀ (text ++ '/' :: body) t (.inRemark rule)
  | attached {text body : List Char} {t : StateTable} {fields : Fields} {letter : Char} {move : Move}
      (h : Reads t₀ pos₀ text t (.beforeMove fields)) (hmove : MoveLetter letter move)
      (hbody : '\n' ∉ body) :
      Reads t₀ pos₀ (text ++ letter :: '/' :: '/' :: body) t (.inRemark (fields.rule move))

theorem internToken_eq_more_iff {t t' : StateTable} {token : Token} {resume : Nat → Stage}
    {stage : Stage} :
    internToken t token resume = .more stage t' ↔
      ∃ id, t.intern token.text = .ok (id, t') ∧ stage = resume id := by
  unfold internToken
  constructor
  · intro h
    split at h
    · next id table hid =>
      cases h
      exact ⟨id, hid, rfl⟩
    · cases h
  · rintro ⟨id, hid, rfl⟩
    rw [hid]

namespace Reads

variable {t₀ t t' : StateTable} {pos₀ : Position} {text : List Char} {stage stage' : Stage} {c : Char}

theorem next_inMove {w : List Char} {fields : Fields} {start : Position}
    (h : Reads t₀ pos₀ text t (.beforeMove fields)) (hw : MoveField w) (hstart : start = pos₀.past text)
    (hnext : (Stage.inMove fields ⟨w, start⟩).next t (pos₀.past (text ++ w)) c = .more stage' t') :
    Reads t₀ pos₀ (text ++ w ++ [c]) t' stage' := by
  subst hstart
  simp only [Stage.next] at hnext
  split at hnext
  -- White space ends the field, which has to be a letter for a move.
  · next hc =>
    split at hnext
    · cases hnext
    · next move hmove =>
      obtain ⟨letter, rfl, hletter⟩ := Token.move?_eq_some_iff.1 hmove
      split at hnext
      · cases hnext
      · next hline =>
        cases hnext
        rw [List.append_assoc]
        exact .afterMove h hletter (by simpa [Padding] using ⟨hc, hline⟩) (by simp)
  -- So does a second slash after it; any other character makes the field longer.
  · next hc =>
    split at hnext
    · cases hnext
    · next hlen =>
      split at hnext
      · next hremark =>
        cases hnext
        rw [List.append_assoc]
        exact .inMove h (hw.push hlen (by simpa using hc) hremark)
      · next front hremark =>
        split at hnext
        · cases hnext
        · next move hmove =>
          cases hnext
          obtain ⟨letter, rfl, hletter⟩ := Token.move?_eq_some_iff.1 hmove
          obtain ⟨-, heq⟩ := Token.beforeComment?_eq_some_iff.1 hremark
          have hchars : w ++ [c] = letter :: '/' :: '/' :: [] := heq
          rw [List.append_assoc, hchars]
          exact .attached h hletter (by simp)

theorem next_afterMove {rule : Instruction} (h : Reads t₀ pos₀ text t (.afterMove rule))
    (hnext : (Stage.afterMove rule).next t (pos₀.past text) c = .more stage' t') :
    Reads t₀ pos₀ (text ++ [c]) t' stage' := by
  simp only [Stage.next] at hnext
  split at hnext
  · cases hnext
  · next hline =>
    split at hnext
    · next hslash =>
      cases hnext
      subst hslash
      exact .afterSlash h
    · split at hnext
      · next hc =>
        cases hnext
        cases h with
        | afterMove h hmove hpad hne =>
          rw [List.append_assoc, List.cons_append]
          refine .afterMove h hmove ?_ (by simp)
          intro d hd
          rcases List.mem_append.1 hd with hd | hd
          · exact hpad d hd
          · rw [List.mem_singleton.1 hd]
            exact ⟨hc, hline⟩
      · cases hnext

/-- One more character extends the last part of what was read, or begins the next part. -/
theorem next (h : Reads t₀ pos₀ text t stage)
    (hnext : stage.next t (pos₀.past text) c = .more stage' t') :
    Reads t₀ pos₀ (text ++ [c]) t' stage' := by
  cases h with
  | gap hg =>
    simp only [Stage.next] at hnext
    split at hnext
    · next hc =>
      cases hnext
      exact .gap (hg.append (.blank hc .nil))
    · next hc =>
      cases hnext
      exact .inSource hg (.one (by simpa using hc))
  | comment hg hbody =>
    simp only [Stage.next] at hnext
    split at hnext
    · next hc =>
      cases hnext
      subst hc
      rw [List.append_assoc]
      exact .gap (hg.append (.comment hbody .nil))
    · next hc =>
      cases hnext
      rw [List.append_assoc]
      exact .comment hg (by simpa [hbody] using fun h => hc h.symm)
  | inSource hg hw =>
    simp only [Stage.next] at hnext
    split at hnext
    · next hc =>
      obtain ⟨id, hid, rfl⟩ := internToken_eq_more_iff.1 hnext
      exact .beforeRead (.inSource hg hw) (.one hc) hid
    · next hc =>
      split at hnext
      · cases hnext
      · next hlen =>
        split at hnext
        · next hslash =>
          cases hnext
          obtain ⟨rfl, rfl⟩ := hslash
          rw [List.append_assoc]
          exact .comment hg (by simp)
        · next hslash =>
          cases hnext
          rw [List.append_assoc]
          exact .inSource hg (hw.push hlen (by simpa using hc) hslash)
  | beforeRead h hs hid =>
    simp only [Stage.next] at hnext
    split at hnext
    · next hc =>
      cases hnext
      rw [List.append_assoc]
      exact .beforeRead h (hs.push hc) hid
    · next hc =>
      cases hnext
      exact .inRead (.beforeRead h hs hid) (by simpa using hc)
  | inRead h hc₀ =>
    simp only [Stage.next] at hnext
    split at hnext
    · next hc =>
      cases hnext
      exact .beforeTarget (.inRead h hc₀) (.one hc)
    · cases hnext
  | beforeTarget h hs =>
    simp only [Stage.next] at hnext
    split at hnext
    · next hc =>
      cases hnext
      rw [List.append_assoc]
      exact .beforeTarget h (hs.push hc)
    · next hc =>
      cases hnext
      exact .inTarget (.beforeTarget h hs) (.one (by simpa using hc))
  | inTarget h hw =>
    simp only [Stage.next] at hnext
    split at hnext
    · next hc =>
      obtain ⟨id, hid, rfl⟩ := internToken_eq_more_iff.1 hnext
      exact .beforeWrite (.inTarget h hw) (.one hc) hid
    · next hc =>
      split at hnext
      · cases hnext
      · next hlen =>
        cases hnext
        rw [List.append_assoc]
        exact .inTarget h (hw.push hlen (by simpa using hc))
  | beforeWrite h hs hid =>
    simp only [Stage.next] at hnext
    split at hnext
    · next hc =>
      cases hnext
      rw [List.append_assoc]
      exact .beforeWrite h (hs.push hc) hid
    · next hc =>
      cases hnext
      exact .inWrite (.beforeWrite h hs hid) (by simpa using hc)
  | inWrite h hc₀ =>
    simp only [Stage.next] at hnext
    split at hnext
    · next hc =>
      cases hnext
      exact .beforeMove (.inWrite h hc₀) (.one hc)
    · cases hnext
  | beforeMove h hs =>
    simp only [Stage.next] at hnext
    split at hnext
    · next hc =>
      cases hnext
      rw [List.append_assoc]
      exact .beforeMove h (hs.push hc)
    · next hc =>
      cases hnext
      exact .inMove (.beforeMove h hs) (.one (by simpa using hc))
  | inMove h hw => exact next_inMove h hw rfl hnext
  | afterMove h hmove hpad hne => exact next_afterMove (.afterMove h hmove hpad hne) hnext
  | afterSlash h =>
    simp only [Stage.next] at hnext
    split at hnext
    · next hc =>
      cases hnext
      subst hc
      exact .inRemark (.afterSlash h) (by simp)
    · cases hnext
  | inRemark h hbody =>
    simp only [Stage.next] at hnext
    split at hnext
    · cases hnext
    · next hc =>
      cases hnext
      rw [List.append_assoc]
      exact .inRemark h (by simpa [hbody] using fun h => hc h.symm)
  | attached h hmove hbody =>
    simp only [Stage.next] at hnext
    split at hnext
    · cases hnext
    · next hc =>
      cases hnext
      rw [List.append_assoc]
      exact .attached h hmove (by simpa [hbody] using fun h => hc h.symm)

/-- What is read along a walk is added to what was read before. -/
theorem of_walks {more : List Char} (h : Reads t₀ pos₀ text t stage)
    (hwalk : Walks stage t (pos₀.past text) more stage' t') :
    Reads t₀ pos₀ (text ++ more) t' stage' := by
  induction more generalizing text stage t with
  | nil =>
    obtain ⟨rfl, rfl⟩ := hwalk
    rwa [List.append_nil]
  | cons c more ih =>
    obtain ⟨s₁, t₁, hnext, hwalk⟩ := hwalk
    rw [← Position.past_concat] at hwalk
    rw [← List.singleton_append, ← List.append_assoc]
    exact ih (h.next hnext) hwalk

end Reads

/-! ## Walks along the productions -/

section WalkParts

variable {t t' : StateTable} {pos : Position}

theorem walks_comment {body : List Char} (hbody : '\n' ∉ body) :
    Walks .inComment t pos body .inComment t :=
  .stay fun c hc _ => by simp [Stage.next, ne_of_mem_of_not_mem hc hbody]

theorem walks_opening {body : List Char} (hbody : '\n' ∉ body) :
    Walks .beforeSource t pos ('/' :: '/' :: body) .inComment t :=
  ⟨.inSource ⟨['/'], pos⟩, t, rfl, .inComment, t, rfl, walks_comment hbody⟩

theorem walks_gap {g : List Char} (hg : Gap g) : Walks .beforeSource t pos g .beforeSource t := by
  induction hg generalizing pos with
  | nil => exact .refl _ t pos
  | blank hc _ ih => exact ⟨.beforeSource, t, by simp [Stage.next, hc], ih⟩
  | comment hbody _ ih =>
    rw [← List.cons_append, ← List.cons_append]
    exact (walks_opening hbody).trans ⟨.beforeSource, t, rfl, ih⟩

/-- The first white space after a stage ends it; the rest is passed over. -/
theorem walks_spacing {s : List Char} {stage after : Stage} (hs : Spacing s)
    (hfirst : ∀ c pos, Text.isBlank c = true → stage.next t pos c = .more after t')
    (hmore : ∀ c pos, Text.isBlank c = true → after.next t' pos c = .more after t') :
    Walks stage t pos s after t' := by
  obtain ⟨hne, hblank⟩ := hs
  cases s with
  | nil => exact absurd rfl hne
  | cons c s =>
    refine ⟨after, t', hfirst c pos (hblank c (List.mem_cons_self ..)), .stay ?_⟩
    exact fun d hd pos => hmore d pos (hblank d (List.mem_cons_of_mem c hd))

/-- A field that is collected in a token is read from its first character on. -/
theorem walks_field {w : List Char} {before : Stage} {inside : Token → Stage}
    {ok : List Char → Prop} (hne : w ≠ []) (hok : ok w)
    (hclosed : ∀ (w : List Char) (c : Char), w ≠ [] → ok (w ++ [c]) → ok w)
    (hfirst : ∀ c pos, ok [c] → before.next t pos c = .more (inside ⟨[c], pos⟩) t)
    (hstep : ∀ (w : List Char) (c : Char) (start pos : Position), w ≠ [] → ok (w ++ [c]) →
      (inside ⟨w, start⟩).next t pos c = .more (inside ⟨w ++ [c], start⟩) t) :
    Walks before t pos w (inside ⟨w, pos⟩) t := by
  -- What may be collected may be collected up to any place.
  have hprefix : ∀ (v w : List Char), w ≠ [] → ok (w ++ v) → ok w := by
    intro v
    induction v using List.reverseRecOn with
    | nil =>
      intro w _ h
      rwa [List.append_nil] at h
    | append_singleton v c ih =>
      intro w hw h
      rw [← List.append_assoc] at h
      exact ih w hw (hclosed _ c (by simp [hw]) h)
  cases w with
  | nil => exact absurd rfl hne
  | cons c w =>
    have hone : ok [c] := hprefix w [c] (by simp) hok
    exact ⟨inside ⟨[c], pos⟩, t, hfirst c pos hone, .collect hclosed hstep (by simp) pos w _ hok⟩

theorem walks_remark {body : List Char} {rule : Instruction} (hbody : '\n' ∉ body) :
    Walks (.inRemark rule) t pos body (.inRemark rule) t :=
  .stay fun c hc _ => by simp [Stage.next, ne_of_mem_of_not_mem hc hbody]

theorem walks_padded {pad : List Char} {fields : Fields} {letter : Char} {move : Move}
    (hmove : MoveLetter letter move) (hpad : Padding pad) (hne : pad ≠ []) :
    Walks (.beforeMove fields) t pos (letter :: pad) (.afterMove (fields.rule move)) t := by
  have hstay : ∀ c ∈ pad, ∀ pos, (Stage.afterMove (fields.rule move)).next t pos c =
      .more (.afterMove (fields.rule move)) t := by
    intro c hc pos
    obtain ⟨hblank, hline⟩ := hpad c hc
    have hslash : c ≠ '/' := by
      rintro rfl
      exact absurd hblank (by decide)
    simp [Stage.next, hblank, hline, hslash]
  have hletter : (Stage.beforeMove fields).next t pos letter =
      .more (.inMove fields ⟨[letter], pos⟩) t := by
    cases hmove <;> rfl
  cases pad with
  | nil => exact absurd rfl hne
  | cons c pad =>
    obtain ⟨hblank, hline⟩ := hpad c (List.mem_cons_self ..)
    refine ⟨_, t, hletter, _, t, ?_, .stay fun d hd => hstay d (List.mem_cons_of_mem c hd)⟩
    simp [Stage.next, hblank, hline, moveLetter_iff.1 hmove]

theorem walks_attached {fields : Fields} {letter : Char} {move : Move} {body : List Char}
    (hmove : MoveLetter letter move) (hbody : '\n' ∉ body) :
    Walks (.beforeMove fields) t pos (letter :: '/' :: '/' :: body) (.inRemark (fields.rule move)) t := by
  refine ⟨.inMove fields ⟨[letter], pos⟩, t, ?_, .inMove fields ⟨[letter, '/'], pos⟩, t, ?_,
    .inRemark (fields.rule move), t, ?_, walks_remark hbody⟩ <;> cases hmove <;> rfl

end WalkParts

/-- The reader walks along the productions. -/
theorem Reads.walks {t₀ t : StateTable} {pos₀ : Position} {text : List Char} {stage : Stage}
    (h : Reads t₀ pos₀ text t stage) : Walks .beforeSource t₀ pos₀ text stage t := by
  induction h with
  | gap hg => exact walks_gap hg
  | comment hg hbody => exact (walks_gap hg).trans (walks_opening hbody)
  | inSource hg hw =>
    refine (walks_gap hg).trans (walks_field hw.ne_nil hw (fun w c => FirstField.pop) ?_ ?_)
    · intro c pos hc
      simp [Stage.next, hc.notBlank c (by simp)]
    · intro w c start pos hne hok
      obtain ⟨hlen, hc⟩ := hok.toField.last
      have hslash : ¬ (w = ['/'] ∧ c = '/') := by
        rintro ⟨rfl, rfl⟩
        exact hok.noComment (List.prefix_refl _)
      simp [Stage.next, hc, hlen, hslash, Token.push]
  | beforeRead h hs hid ih =>
    refine ih.trans (walks_spacing hs ?_ ?_)
    · intro c pos hc
      simp only [Stage.next, if_pos hc]
      exact internToken_eq_more_iff.2 ⟨_, hid, rfl⟩
    · intro c pos hc
      simp [Stage.next, hc]
  | inRead h hc ih => exact ih.trans (.single (by simp [Stage.next, hc]))
  | beforeTarget h hs ih =>
    refine ih.trans (walks_spacing hs ?_ ?_) <;> intro c pos hc <;> simp [Stage.next, hc]
  | inTarget h hw ih =>
    refine ih.trans (walks_field hw.ne_nil hw (fun w c => Field.pop) ?_ ?_)
    · intro c pos hc
      simp [Stage.next, hc.notBlank c (by simp)]
    · intro w c start pos hne hok
      obtain ⟨hlen, hc⟩ := hok.last
      simp [Stage.next, hc, hlen, Token.push]
  | beforeWrite h hs hid ih =>
    refine ih.trans (walks_spacing hs ?_ ?_)
    · intro c pos hc
      simp only [Stage.next, if_pos hc]
      exact internToken_eq_more_iff.2 ⟨_, hid, rfl⟩
    · intro c pos hc
      simp [Stage.next, hc]
  | inWrite h hc ih => exact ih.trans (.single (by simp [Stage.next, hc]))
  | beforeMove h hs ih =>
    refine ih.trans (walks_spacing hs ?_ ?_) <;> intro c pos hc <;> simp [Stage.next, hc]
  | inMove h hw ih =>
    refine ih.trans (walks_field hw.ne_nil hw (fun w c => MoveField.pop) ?_ ?_)
    · intro c pos hc
      simp [Stage.next, hc.notBlank c (by simp)]
    · intro w c start pos hne hok
      obtain ⟨hlen, hc⟩ := hok.toField.last
      simp [Stage.next, hc, hlen, Token.push, hok.last]
  | afterMove h hmove hpad hne ih => exact ih.trans (walks_padded hmove hpad hne)
  | afterSlash h ih => exact ih.trans (.single rfl)
  | inRemark h hbody ih => exact ih.trans ⟨_, _, rfl, walks_remark hbody⟩
  | attached h hmove hbody ih => exact ih.trans (walks_attached hmove hbody)

theorem reads_iff_walks {t₀ t : StateTable} {pos₀ : Position} {text : List Char} {stage : Stage} :
    Reads t₀ pos₀ text t stage ↔ Walks .beforeSource t₀ pos₀ text stage t :=
  ⟨Reads.walks, fun h => (Reads.gap .nil).of_walks h⟩

end LogicMill.Rules
