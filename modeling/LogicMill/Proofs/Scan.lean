import LogicMill.Rules.Parser
import Mathlib.Data.List.Induction

/-! # Runs of the rule reader

Facts about the reader that do not depend on what a rule looks like: how it walks from stage to stage,
and how a call of `Parser.scan` ends.

* `Position.past`: the place after a text.
* `Walks s t pos text s' t'`: reading `text` leads from stage `s` with table `t` to stage `s'` with
  table `t'`; no rule is complete on the way and there is no fault.
* `scan_of_walks`: a call of `scan` can be followed along a walk.
* `scan_cases`, `scan_of_ends`: a call of `scan` is a walk to the letter that ends it, or to the end of
  the text.
-/

namespace LogicMill.Rules
set_option autoImplicit false

/-! ## Places -/

/-- The place after a text that stands here. -/
def Position.past (p : Position) (text : List Char) : Position :=
  text.foldl (fun p c => p.after (.char c)) p

namespace Position

@[simp] theorem past_nil (p : Position) : p.past [] = p := rfl

@[simp] theorem past_cons (p : Position) (c : Char) (text : List Char) :
    p.past (c :: text) = (p.after (.char c)).past text := rfl

theorem past_append (p : Position) (a b : List Char) : p.past (a ++ b) = (p.past a).past b :=
  List.foldl_append

theorem past_concat (p : Position) (text : List Char) (c : Char) :
    p.past (text ++ [c]) = (p.past text).after (.char c) := by
  rw [past_append, past_cons, past_nil]

end Position

/-! ## Walks -/

/-- `Walks s t pos text s' t'`: reading `text` from stage `s` with table `t` at `pos` leads to stage
`s'` with table `t'`, every character of it being one after which the reader goes on. -/
def Walks : Stage → StateTable → Position → List Char → Stage → StateTable → Prop
  | s, t, _, [], s', t' => s = s' ∧ t = t'
  | s, t, pos, c :: text, s', t' =>
    ∃ s₁ t₁, s.next t pos c = .more s₁ t₁ ∧ Walks s₁ t₁ (pos.after (.char c)) text s' t'

namespace Walks

variable {s s₁ s₂ : Stage} {t t₁ t₂ : StateTable} {pos : Position}

theorem refl (s : Stage) (t : StateTable) (pos : Position) : Walks s t pos [] s t := ⟨rfl, rfl⟩

theorem single {c : Char} (h : s.next t pos c = .more s₁ t₁) : Walks s t pos [c] s₁ t₁ :=
  ⟨s₁, t₁, h, rfl, rfl⟩

theorem trans {a b : List Char} (ha : Walks s t pos a s₁ t₁)
    (hb : Walks s₁ t₁ (pos.past a) b s₂ t₂) : Walks s t pos (a ++ b) s₂ t₂ := by
  induction a generalizing s t pos with
  | nil =>
    obtain ⟨rfl, rfl⟩ := ha
    exact hb
  | cons c a ih =>
    obtain ⟨s', t', hc, ha⟩ := ha
    exact ⟨s', t', hc, ih ha hb⟩

/-- A stage that no character of a text changes is still there after the text. -/
theorem stay {text : List Char} (h : ∀ c ∈ text, ∀ pos, s.next t pos c = .more s t) :
    Walks s t pos text s t := by
  induction text generalizing pos with
  | nil => exact refl s t pos
  | cons c text ih =>
    exact ⟨s, t, h c (List.mem_cons_self ..) pos, ih fun d hd => h d (List.mem_cons_of_mem c hd)⟩

/-- A stage that collects a token collects all of a text, as long as what it then holds is allowed:
`ok` is closed under taking the last character away. -/
theorem collect {inside : Token → Stage} {ok : List Char → Prop}
    (hclosed : ∀ (w : List Char) (c : Char), w ≠ [] → ok (w ++ [c]) → ok w)
    (hstep : ∀ (w : List Char) (c : Char) (start pos : Position), w ≠ [] → ok (w ++ [c]) →
      (inside ⟨w, start⟩).next t pos c = .more (inside ⟨w ++ [c], start⟩) t)
    {w : List Char} (hw : w ≠ []) (start : Position) :
    ∀ (text : List Char) (pos : Position), ok (w ++ text) →
      Walks (inside ⟨w, start⟩) t pos text (inside ⟨w ++ text, start⟩) t := by
  intro text
  induction text using List.reverseRecOn with
  | nil =>
    intro pos _
    rw [List.append_nil]
    exact refl _ t pos
  | append_singleton text c ih =>
    intro pos hok
    have hne : w ++ text ≠ [] := by simp [hw]
    rw [← List.append_assoc] at hok ⊢
    exact (ih pos (hclosed _ c hne hok)).trans (single (hstep _ c start _ hne hok))

end Walks

/-! ## Calls of the reader -/

namespace Parser

/-- Reading goes on from the end of a walk. -/
theorem scan_of_walks {s s' : Stage} {t t' : StateTable} {text : List Char} {pos : Position}
    (h : Walks s t pos text s' t') (failure : Option Bytes) (last : Position)
    (rest : List Utf8.Letter) :
    ∃ last', scan failure s t last pos (text.map .char ++ rest) =
      scan failure s' t' last' (pos.past text) rest := by
  induction text generalizing s t pos last with
  | nil =>
    obtain ⟨rfl, rfl⟩ := h
    exact ⟨last, rfl⟩
  | cons c text ih =>
    obtain ⟨s₁, t₁, hc, h⟩ := h
    obtain ⟨last', heq⟩ := ih h pos
    refine ⟨last', ?_⟩
    rw [List.map_cons, List.cons_append, scan, Position.past_cons, ← heq]
    simp only [hc]

/-- How a call of `scan` ends, after a walk over the text before the end. -/
inductive Ends (failure : Option Bytes) (s : Stage) (t : StateTable) (pos : Position) :
    List Utf8.Letter → Item × Parser → Prop
  /-- The text is at its end. -/
  | close (hfailure : failure = none) :
      Ends failure s t pos [] (s.close pos, ⟨[], failure, pos, pos, t⟩)
  /-- The text could not be read on. -/
  | unreadable {cause : Bytes} {last : Position} (hfailure : failure = some cause) :
      Ends failure s t pos [] (.readFailed cause, ⟨[], failure, last, pos, t⟩)
  | stray {b : UInt8} {rest : List Utf8.Letter} :
      Ends failure s t pos (.stray b :: rest)
        (.fault ⟨pos, .illegalEncoding⟩, ⟨rest, failure, pos, pos.after (.stray b), t⟩)
  | rule {c : Char} {rest : List Utf8.Letter} {i : Instruction} (h : s.next t pos c = .rule i) :
      Ends failure s t pos (.char c :: rest)
        (.rule i, ⟨rest, failure, pos, pos.after (.char c), t⟩)
  | fault {c : Char} {rest : List Utf8.Letter} {place : Position} {fault : Fault}
      (h : s.next t pos c = .fault place fault) :
      Ends failure s t pos (.char c :: rest)
        (.fault ⟨place, fault⟩, ⟨rest, failure, pos, pos.after (.char c), t⟩)

theorem scan_cases (failure : Option Bytes) (s : Stage) (t : StateTable) (last pos : Position)
    (letters : List Utf8.Letter) :
    ∃ text rest s' t', letters = text.map .char ++ rest ∧ Walks s t pos text s' t' ∧
      Ends failure s' t' (pos.past text) rest (scan failure s t last pos letters) := by
  induction letters generalizing s t last pos with
  | nil =>
    refine ⟨[], [], s, t, rfl, .refl s t pos, ?_⟩
    unfold scan
    cases failure with
    | none => exact .close rfl
    | some cause => exact .unreadable rfl
  | cons letter letters ih =>
    cases letter with
    | stray b => exact ⟨[], _, s, t, rfl, .refl s t pos, .stray⟩
    | char c =>
      rw [scan]
      cases hnext : s.next t pos c with
      | more s₁ t₁ =>
        obtain ⟨text, rest, s', t', rfl, hwalk, hend⟩ := ih s₁ t₁ pos (pos.after (.char c))
        exact ⟨c :: text, rest, s', t', rfl, ⟨s₁, t₁, hnext, hwalk⟩, hend⟩
      | rule i => exact ⟨[], _, s, t, rfl, .refl s t pos, .rule hnext⟩
      | fault place fault => exact ⟨[], _, s, t, rfl, .refl s t pos, .fault hnext⟩

/-- A walk and the end that follows it determine what a call of `scan` returns on a text that can be
read to its end. -/
theorem scan_of_ends {s s' : Stage} {t t' : StateTable} {pos : Position} {text : List Char}
    {rest : List Utf8.Letter} {result : Item × Parser} (hwalk : Walks s t pos text s' t')
    (hend : Ends none s' t' (pos.past text) rest result) (last : Position) :
    scan none s t last pos (text.map .char ++ rest) = result := by
  obtain ⟨last', heq⟩ := scan_of_walks hwalk none last rest
  rw [heq]
  cases hend with
  | close => rfl
  | unreadable hfailure => cases hfailure
  | stray => rfl
  | rule hnext => simp only [scan, hnext]
  | fault hnext => simp only [scan, hnext]

end Parser

end LogicMill.Rules
