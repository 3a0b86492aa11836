import LogicMill.Proofs.StateTable
import LogicMill.Rules.Parser

/-! # The grammar of rule text

What a rule text looks like, said of whole texts and without a reader.

* `Gap`, `Closing`: white space and comments before a rule, and at the end of a text.
* `Field`, `Spacing`, `LineEnd`: the parts of a rule.
* `Phrase`: a rule as it is written, with `Phrase.Written` for the ways to write it.
* `RuleText text phrases`: the text consists of these rules.
* `stateNames`, `symbolOf`, `Phrase.instruction`: what the rules of a text mean. States are numbered in the
  order in which their names first occur, after the two that are built in.
* `moveLetter_iff`, `ruleSymbol_eq`: the reader takes moves and symbols as the grammar does.
-/

namespace LogicMill.Rules
set_option autoImplicit false

/-! ## Between rules -/

/-- White space and whole-line comments, in any mixture. Each comment runs to the end of its line. -/
inductive Gap : List Char → Prop
  | nil : Gap []
  | blank {c : Char} {rest : List Char} (hc : Text.isBlank c = true) (h : Gap rest) : Gap (c :: rest)
  | comment {body rest : List Char} (hbody : '\n' ∉ body) (h : Gap rest) :
      Gap ('/' :: '/' :: (body ++ '\n' :: rest))

/-- What may stand after the last rule: a gap, in which the last comment may run to the end of the
text. -/
def Closing (text : List Char) : Prop :=
  Gap text ∨ ∃ front body, Gap front ∧ '\n' ∉ body ∧ text = front ++ '/' :: '/' :: body

/-! ## Inside a rule -/

/-- One to `maxNameLength` characters, none of them white space. -/
structure Field (text : List Char) : Prop where
  ne_nil : text ≠ []
  length_le : text.length ≤ maxNameLength
  notBlank : ∀ c ∈ text, Text.isBlank c = false

/-- A field that can stand first in a rule: it does not look like a comment. -/
structure FirstField (text : List Char) : Prop extends Field text where
  noComment : ¬ ['/', '/'] <+: text

/-- One or more white space characters. -/
structure Spacing (text : List Char) : Prop where
  ne_nil : text ≠ []
  blank : ∀ c ∈ text, Text.isBlank c = true

/-- White space that does not leave the line, possibly none. -/
def Padding (text : List Char) : Prop := ∀ c ∈ text, Text.isBlank c = true ∧ c ≠ '\n'

/-- What may follow the move on its line: padding, then possibly a comment. -/
def LineEnd (text : List Char) : Prop :=
  Padding text ∨ ∃ pad body, Padding pad ∧ '\n' ∉ body ∧ text = pad ++ '/' :: '/' :: body

/-- The letters for the two moves. -/
inductive MoveLetter : Char → Move → Prop
  | left : MoveLetter 'L' .left
  | right : MoveLetter 'R' .right

/-- A rule as it is written: two state names, two symbols and a move. -/
structure Phrase where
  source : List Char
  read : Char
  target : List Char
  write : Char
  move : Move
deriving Repr, DecidableEq

/-- The first four fields of a rule, each with white space after it. -/
inductive Phrase.Opens : List Char → Phrase → Prop
  | mk {source s₁ s₂ target s₃ s₄ : List Char} {read write : Char} {move : Move}
      (hsource : FirstField source) (hs₁ : Spacing s₁)
      (hread : Text.isBlank read = false) (hs₂ : Spacing s₂)
      (htarget : Field target) (hs₃ : Spacing s₃)
      (hwrite : Text.isBlank write = false) (hs₄ : Spacing s₄) :
      Opens (source ++ s₁ ++ read :: s₂ ++ target ++ s₃ ++ write :: s₄)
        ⟨source, read, target, write, move⟩

/-- A whole rule, up to the end of its line. -/
inductive Phrase.Written : List Char → Phrase → Prop
  | mk {front ending : List Char} {letter : Char} {phrase : Phrase} (hfront : Opens front phrase)
      (hmove : MoveLetter letter phrase.move) (hending : LineEnd ending) :
      Written (front ++ letter :: ending) phrase

/-! ## Whole texts -/

/-- The text consists of the given rules. Each of them ends with its line, the last one possibly with
the text. -/
inductive RuleText : List Char → List Phrase → Prop
  | closing {text : List Char} (h : Closing text) : RuleText text []
  | last {gap text : List Char} {phrase : Phrase} (hgap : Gap gap) (h : Phrase.Written text phrase) :
      RuleText (gap ++ text) [phrase]
  | rule {gap text rest : List Char} {phrase : Phrase} {phrases : List Phrase} (hgap : Gap gap)
      (h : Phrase.Written text phrase) (hrest : RuleText rest phrases) :
      RuleText (gap ++ text ++ '\n' :: rest) (phrase :: phrases)

/-! ## Meaning -/

/-- The state names of a rule, in order. -/
def Phrase.names (phrase : Phrase) : List Bytes :=
  [Utf8.encode phrase.source, Utf8.encode phrase.target]

/-- The names that rules mention, after those that are built in. -/
def mentions (phrases : List Phrase) : List Bytes :=
  StateTable.builtin ++ phrases.flatMap Phrase.names

/-- The distinct state names of a text, in the order in which they first occur. -/
def stateNames (phrases : List Phrase) : List Bytes := (mentions phrases).eraseDups

/-- The symbol that a character stands for: the underscore is the blank, and any other character is
itself. -/
def symbolOf : Char → Symbol
  | '_' => .blank
  | c => .ofChar c

/-- The instruction that a rule stands for where states are numbered by their place in `names`. -/
def Phrase.instruction (names : List Bytes) (phrase : Phrase) : Instruction where
  source := names.idxOf (Utf8.encode phrase.source)
  read := symbolOf phrase.read
  target := names.idxOf (Utf8.encode phrase.target)
  write := symbolOf phrase.write
  move := phrase.move

/-! ## Small facts -/

theorem Gap.append {a b : List Char} (ha : Gap a) (hb : Gap b) : Gap (a ++ b) := by
  induction ha with
  | nil => exact hb
  | blank hc _ ih => exact .blank hc ih
  | comment hbody _ ih =>
    simp only [List.cons_append, List.append_assoc]
    exact .comment hbody ih

theorem symbolOf_of_ne {c : Char} (h : c ≠ '_') : symbolOf c = .ofChar c := by
  unfold symbolOf
  split
  · exact absurd rfl h
  · rfl

theorem ruleSymbol_eq (c : Char) : ruleSymbol c = symbolOf c := by
  unfold ruleSymbol
  split
  · next h => rw [h]; rfl
  · next h => rw [symbolOf_of_ne h]

theorem moveLetter_iff {letter : Char} {move : Move} :
    MoveLetter letter move ↔ Token.move? [letter] = some move := by
  constructor
  · rintro (_ | _) <;> decide
  · intro h
    unfold Token.move? at h
    split at h
    · next hl =>
      cases h
      cases hl
      exact .left
    · split at h
      · next hr =>
        cases h
        cases hr
        exact .right
      · cases h

theorem Token.move?_eq_some_iff {chars : List Char} {move : Move} :
    Token.move? chars = some move ↔ ∃ letter, chars = [letter] ∧ MoveLetter letter move := by
  constructor
  · intro h
    have hone : ∃ letter, chars = [letter] := by
      unfold Token.move? at h
      split at h
      · exact ⟨_, ‹_›⟩
      · split at h
        · exact ⟨_, ‹_›⟩
        · cases h
    obtain ⟨letter, rfl⟩ := hone
    exact ⟨letter, rfl, moveLetter_iff.2 h⟩
  · rintro ⟨letter, rfl, h⟩
    exact moveLetter_iff.1 h

end LogicMill.Rules
