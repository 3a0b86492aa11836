import LogicMill.Proofs.Limits
import LogicMill.Proofs.Places
import LogicMill.Proofs.WellFormed

/-! # What the reader holds of a field

While the reader is in a field it holds the characters of the field that it has read. These are always the text
from the place where the field begins up to the letter that is read next, and they are such that every test on
them makes sense and a state name is never refused for its length.

* `Iteration`, `Parser.iteration?`: where a call stands after a number of letters.
* `Iteration.Reached`: what was read until then. It holds at first, is kept by `Iteration.next?`, and so holds in
  all iterations.
* `Stage.token?`: what the reader holds; `Reads.token_field`: it is a field, at the end of what was read.
* `Token.StandsIn`: a token with its place in the whole text.
* `Parser.after_failure`: where calls stop does not depend on how the text ends.
* `Reads.sound`, `Field.intern_refused`: why a state name can be refused.
* `Parser.tokens_match`: all iterations of all calls.
-/

namespace LogicMill.Rules
set_option autoImplicit false

/-! ## Iterations of a call -/

/-- Where a call of the reader stands: what `Parser.scan` goes on from. -/
structure Iteration where
  stage : Stage
  table : StateTable
  last : Position
  pos : Position
  rest : List Utf8.Letter

/-- Reading on by one letter, if it does not end the call. -/
def Iteration.next? (it : Iteration) : Option Iteration :=
  match it.rest with
  | .char c :: rest =>
    match it.stage.next it.table it.pos c with
    | .more stage table => some ⟨stage, table, it.pos, it.pos.after (.char c), rest⟩
    | .rule _ | .fault _ _ => none
  | _ => none

/-- Where a call stands after `k` letters, if it is not over by then. -/
def Parser.iteration? (p : Parser) : (k : ℕ) → Option Iteration
  | 0 => some ⟨.beforeSource, p.table, p.last, p.pos, p.rest⟩
  | k + 1 => (p.iteration? k).bind Iteration.next?

namespace Iteration

variable {p : Parser} {it it' : Iteration} {k : ℕ}

theorem next?_eq_some (h : it.next? = some it') :
    ∃ c, it.rest = .char c :: it'.rest ∧ it.stage.next it.table it.pos c = .more it'.stage it'.table ∧
      it'.last = it.pos ∧ it'.pos = it.pos.after (.char c) := by
  unfold next? at h
  split at h
  · next c rest hrest =>
    split at h
    · next stage table hnext =>
      cases h
      exact ⟨c, hrest, hnext, rfl, rfl⟩
    · cases h
    · cases h
  · cases h

theorem scan_next? (h : it.next? = some it') (failure : Option Bytes) :
    Parser.scan failure it.stage it.table it.last it.pos it.rest =
      Parser.scan failure it'.stage it'.table it'.last it'.pos it'.rest := by
  obtain ⟨c, hrest, hnext, hlast, hpos⟩ := next?_eq_some h
  rw [hrest, Parser.scan, hlast, hpos]
  simp only [hnext]

/-- The text that a call has read before an iteration leads to the stage of the iteration. -/
def Reached (p : Parser) (it : Iteration) : Prop :=
  ∃ text, p.rest = text.map .char ++ it.rest ∧ it.pos = p.pos.past text ∧
    Reads p.table p.pos text it.table it.stage

theorem Reached.next (h : it.Reached p) (hnext : it.next? = some it') : it'.Reached p := by
  obtain ⟨text, hrest, hpos, hreads⟩ := h
  obtain ⟨c, hletter, hstep, -, hpos'⟩ := next?_eq_some hnext
  rw [hpos] at hstep hpos'
  refine ⟨text ++ [c], ?_, ?_, hreads.next hstep⟩
  · rw [hrest, hletter]
    simp
  · rw [hpos', Position.past_concat]

end Iteration

namespace Parser

variable {p : Parser} {it : Iteration} {k : ℕ}

theorem iteration?_succ_eq_some (h : p.iteration? (k + 1) = some it) :
    ∃ before, p.iteration? k = some before ∧ before.next? = some it := Option.bind_eq_some_iff.1 h

theorem reached_iteration? (h : p.iteration? k = some it) : it.Reached p := by
  induction k generalizing it with
  | zero =>
    cases h
    exact ⟨[], rfl, rfl, .gap .nil⟩
  | succ k ih =>
    obtain ⟨before, hbefore, hnext⟩ := iteration?_succ_eq_some h
    exact (ih hbefore).next hnext

/-- A call goes on from each of its iterations. -/
theorem next_eq_scan (h : p.iteration? k = some it) :
    p.next = scan p.failure it.stage it.table it.last it.pos it.rest := by
  induction k generalizing it with
  | zero =>
    cases h
    rfl
  | succ k ih =>
    obtain ⟨before, hbefore, hnext⟩ := iteration?_succ_eq_some h
    rw [ih hbefore, Iteration.scan_next? hnext]

end Parser

/-! ## Tokens -/

/-- What the reader holds of the field that it is in, and where the field begins. -/
def Stage.token? : Stage → Option Token
  | .inSource token | .inTarget _ _ token | .inMove _ token => some token
  | .inRead _ c start | .inWrite _ _ _ c start => some ⟨[c], start⟩
  | _ => none

/-- The reader is in a symbol field. -/
def Stage.InSymbol : Stage → Prop
  | .inRead _ _ _ | .inWrite _ _ _ _ _ => True
  | _ => False

/-- The token is the text from its place on, up to where the letters `rest` are left. -/
def Token.StandsIn (file text : Bytes) (rest : List Utf8.Letter) (token : Token) : Prop :=
  ∃ before, Utf8.decode text = before ++ (token.chars.map .char ++ rest) ∧ token.start = .behind file before

theorem Stage.InSymbol.length_token {s : Stage} {token : Token} (h : s.InSymbol)
    (htoken : s.token? = some token) : token.chars.length = 1 := by
  cases s with
  | inRead | inWrite =>
    cases htoken
    rfl
  | _ => exact absurd h id

section Reading

variable {t₀ t : StateTable} {pos₀ : Position} {text word : List Char} {s : Stage} {token : Token}

theorem Reads.token_field (h : Reads t₀ pos₀ text t s) (htoken : s.token? = some token) :
    Field token.chars ∧ ∃ front, text = front ++ token.chars ∧ token.start = pos₀.past front := by
  cases h with
  | inSource _ hw =>
    cases htoken
    exact ⟨hw.toField, _, rfl, rfl⟩
  | inTarget _ hw =>
    cases htoken
    exact ⟨hw, _, rfl, rfl⟩
  | inMove _ hw =>
    cases htoken
    exact ⟨hw.toField, _, rfl, rfl⟩
  | inRead _ hc | inWrite _ hc =>
    cases htoken
    exact ⟨.one hc, _, rfl, rfl⟩
  | _ => cases htoken

theorem Reads.source_noComment (h : Reads t₀ pos₀ text t (.inSource token)) :
    ¬ ['/', '/'] <+: token.chars := by
  cases h with
  | inSource _ hw => exact hw.noComment

/-- Two slashes at the end of a move field would have ended it, unless they are all of it. -/
theorem Reads.move_noRemark {fields : Fields} (h : Reads t₀ pos₀ text t (.inMove fields token)) :
    ¬ (3 ≤ token.chars.length ∧ ['/', '/'] <:+ token.chars) := by
  cases h with
  | inMove _ hw =>
    rintro ⟨hlen, front, hfront⟩
    obtain rfl : front = [] := hw.noRemark front [] hfront.symm
    rw [← hfront] at hlen
    exact absurd hlen (by decide)

theorem Stage.Names.token? (h : s.Names word) : ∃ start, s.token? = some ⟨word, start⟩ := by
  cases s with
  | inSource token | inTarget _ _ token =>
    obtain rfl : token.chars = word := h
    exact ⟨token.start, rfl⟩
  | _ => exact absurd h id

/-! ## State names -/

theorem Reads.sound (h : Reads t₀ pos₀ text t s) (hsound : t₀.Sound) : t.Sound :=
  h.table_induction hsound fun ht hid => StateTable.attempt_ok hid ▸ ht.attempt _

/-- A field is of proper length for a name, so that only a full table refuses it. -/
theorem Field.intern_refused (hword : Field word) (hsound : t.Sound) {e : InternError}
    (h : t.intern (Utf8.encode word) = .error e) : e = .tableFull ∧ t.size = maxStates := by
  have hpos := hword.count_pos
  have hlen := hword.count_le
  obtain ⟨-, ⟨-, hempty⟩ | ⟨-, hlong⟩ | ⟨he, hfull⟩ | ⟨he, -⟩⟩ := StateTable.intern_error_cases h
  · omega
  · omega
  · exact ⟨he, Nat.le_antisymm hsound.size_le hfull⟩
  · exact absurd he (hsound.ne_storageFull h)

end Reading

/-! ## All calls -/

namespace Parser

variable {p : Parser}

theorem sound_after (hsound : p.table.Sound) (n : ℕ) : (p.after n).table.Sound := by
  induction n with
  | zero => exact hsound
  | succ n ih =>
    obtain ⟨text, rest, s, t, -, hreads, hend⟩ := (p.after n).next_reads
    rw [after_succ]
    generalize (p.after n).next = result at hend ⊢
    cases hend <;> exact hreads.sound ih

theorem scan_failure (failure : Option Bytes) (s : Stage) (t : StateTable) (last last' pos : Position)
    (letters : List Utf8.Letter) :
    let a := (scan failure s t last pos letters).2
    let b := (scan none s t last' pos letters).2
    a.rest = b.rest ∧ a.pos = b.pos ∧ a.table = b.table := by
  induction letters generalizing s t last last' pos with
  | nil => cases failure <;> exact ⟨rfl, rfl, rfl⟩
  | cons letter letters ih =>
    cases letter with
    | stray b => exact ⟨rfl, rfl, rfl⟩
    | char c =>
      simp only [scan]
      cases s.next t pos c with
      | more s' t' => exact ih s' t' pos pos (pos.after (.char c))
      | rule i => exact ⟨rfl, rfl, rfl⟩
      | fault place fault => exact ⟨rfl, rfl, rfl⟩

/-- Where a call stops does not depend on whether the text ends or breaks off behind its letters. -/
theorem after_failure (file text : Bytes) (failure : Option Bytes) (table : StateTable) (n : ℕ) :
    let a := (start file text failure table).after n
    let b := (start file text none table).after n
    a.rest = b.rest ∧ a.pos = b.pos ∧ a.table = b.table := by
  induction n with
  | zero => exact ⟨rfl, rfl, rfl⟩
  | succ n ih =>
    obtain ⟨hrest, hpos, htable⟩ := ih
    simp only [after_succ, next, hrest, hpos, htable, failure_after]
    exact scan_failure ..

/-- What is held of a field stands in the text where the field begins, before the letters that are left. -/
theorem standsIn_of_reached {file text : Bytes} {failure : Option Bytes} {table : StateTable} {n : ℕ}
    {it : Iteration} {token : Token} (h : it.Reached ((start file text failure table).after n))
    (htoken : it.stage.token? = some token) : token.StandsIn file text it.rest := by
  obtain ⟨read, hrest, -, hreads⟩ := h
  obtain ⟨-, front, rfl, hstart⟩ := hreads.token_field htoken
  obtain ⟨before, htext, hpos⟩ := pos_after file text table n
  obtain ⟨hsame, hplace, -⟩ := after_failure file text failure table n
  refine ⟨before ++ front.map .char, ?_, ?_⟩
  · rw [htext, ← hsame, hrest]
    simp
  · rw [hstart, hplace, hpos, ← Position.advance_map_char, Position.advance_behind]

/-- The stage and what is held of a field always match: for every text, every table reached by interning, every
call, also after faults, and every iteration of the call, from which the call goes on. In a field, one to
`maxNameLength` characters are held, none of them white space, and they are the text from where the field begins
up to the letters that are left; in a symbol field there is one. The first field of a rule does not begin with
two slashes, and a move field of three or more characters does not end with two. So there is always a first
character, with one more letter there are always two last ones, and a state name is refused only if the table
holds `maxStates` names. -/
theorem tokens_match (file text : Bytes) (failure : Option Bytes) (calls : List Bytes) (n k : ℕ)
    {it : Iteration}
    (h : ((start file text failure (.interned calls)).after n).iteration? k = some it) :
    ((start file text failure (.interned calls)).after n).next =
      scan failure it.stage it.table it.last it.pos it.rest ∧
    (∀ token, it.stage.token? = some token →
      Field token.chars ∧ token.StandsIn file text it.rest ∧
      (it.stage.InSymbol → token.chars.length = 1) ∧
      0 < token.chars.length ∧ ∀ c, 2 ≤ (token.push c).chars.length) ∧
    (∀ token, it.stage = .inSource token → ¬ ['/', '/'] <+: token.chars) ∧
    (∀ fields token, it.stage = .inMove fields token →
      ¬ (3 ≤ token.chars.length ∧ ['/', '/'] <:+ token.chars)) ∧
    ∀ word e, it.stage.Names word → it.table.intern (Utf8.encode word) = .error e →
      e = .tableFull ∧ it.table.size = maxStates := by
  obtain ⟨read, -, -, hreads⟩ := reached_iteration? h
  have hsound : it.table.Sound := hreads.sound (sound_after (StateTable.sound_interned calls) n)
  refine ⟨?_, fun token htoken => ?_, fun token hs => ?_, fun fields token hs => ?_, fun word e hs he => ?_⟩
  · rw [next_eq_scan h, failure_after]
    rfl
  · have hfield := (hreads.token_field htoken).1
    have hpos : 0 < token.chars.length := List.length_pos_iff.2 hfield.ne_nil
    refine ⟨hfield, standsIn_of_reached (reached_iteration? h) htoken, fun hs => hs.length_token htoken, hpos,
      fun c => ?_⟩
    rw [Token.push, List.length_append, List.length_singleton]
    omega
  · rw [hs] at hreads
    exact hreads.source_noComment
  · rw [hs] at hreads
    exact hreads.move_noRemark
  · obtain ⟨start, htoken⟩ := hs.token?
    exact (hreads.token_field htoken).1.intern_refused hsound he

/-- A symbol that is too long, and then a rule in which a slash is attached to the move. -/
def slashText : Bytes := utf8 "a bb\nINIT a HALT b R/x"

theorem tokens_match_slash :
    ∃ it, ((start [] slashText none (.interned [])).after 1).iteration? 17 = some it ∧
      it.stage.token? = some ⟨['R', '/'], ⟨[], 19, 2, 15⟩⟩ ∧ Field ['R', '/'] ∧
      Token.StandsIn [] slashText [.char 'x'] ⟨['R', '/'], ⟨[], 19, 2, 15⟩⟩ := by
  have hheld : (((start [] slashText none (.interned [])).after 1).iteration? 17).map
      (fun it => (it.stage.token?, it.rest)) =
        some (some ⟨['R', '/'], ⟨[], 19, 2, 15⟩⟩, [.char 'x']) := by
    decide +kernel
  obtain ⟨it, h, heq⟩ := Option.map_eq_some_iff.1 hheld
  obtain ⟨htoken, hrest⟩ := Prod.mk.inj heq
  obtain ⟨-, hmatch, -⟩ := tokens_match [] slashText none [] 1 17 h
  obtain ⟨hfield, hstands, -⟩ := hmatch _ htoken
  exact ⟨it, h, htoken, hfield, hrest ▸ hstands⟩

end Parser

end LogicMill.Rules
