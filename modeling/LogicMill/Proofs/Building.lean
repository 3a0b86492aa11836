import LogicMill.Proofs.Assembly

/-! # Building programs

A program is refused for the first of its instructions that is not valid, and it is searched for the first
that applies. Both are about the order of the code, so both are told by `IsFirst`.

* `IsFirst`: the first instruction with a property, and its number.
* `faultFrom?_eq_some_iff`: the fault found is that of the first instruction that is not valid.
* `Program.lookup_eq_some_iff`: the instruction found is the first that applies.
* `Program.build_refines_scan`: which code makes a program, which fault is reported of any other, and
  what is looked up in the program.
-/

namespace LogicMill
set_option autoImplicit false

/-! ## The first instruction -/

/-- Number `k` of the code is `i`, the first instruction with a property. -/
structure IsFirst (P : Instruction → Prop) (code : List Instruction) (k : ℕ) (i : Instruction) : Prop where
  entry : code[k]? = some i
  holds : P i
  before : ∀ j < k, ∀ i', code[j]? = some i' → ¬ P i'

section IsFirst

variable {P : Instruction → Prop} {code : List Instruction} {k : ℕ} {i first : Instruction}

theorem isFirst_cons_of_pos (hfirst : P first) :
    IsFirst P (first :: code) k i ↔ k = 0 ∧ i = first := by
  constructor
  · intro h
    cases k with
    | zero => exact ⟨rfl, Option.some.inj h.entry.symm⟩
    | succ k => exact absurd hfirst (h.before 0 (Nat.succ_pos k) first rfl)
  · rintro ⟨rfl, rfl⟩
    exact ⟨rfl, hfirst, fun j hj => absurd hj (Nat.not_lt_zero j)⟩

theorem isFirst_cons_of_neg (hfirst : ¬ P first) :
    IsFirst P (first :: code) k i ↔ ∃ k', k = k' + 1 ∧ IsFirst P code k' i := by
  constructor
  · intro h
    cases k with
    | zero =>
      cases h.entry
      exact absurd h.holds hfirst
    | succ k =>
      exact ⟨k, rfl, h.entry, h.holds, fun j hj => h.before (j + 1) (Nat.succ_lt_succ hj)⟩
  · rintro ⟨k', rfl, h⟩
    refine ⟨h.entry, h.holds, fun j hj i' hi' => ?_⟩
    cases j with
    | zero =>
      cases hi'
      exact hfirst
    | succ j => exact h.before j (Nat.lt_of_succ_lt_succ hj) i' hi'

theorem find?_eq_some_iff_isFirst [DecidablePred P] :
    code.find? (fun i => decide (P i)) = some i ↔ ∃ k, IsFirst P code k i := by
  rw [List.find?_eq_some_iff_getElem]
  constructor
  · rintro ⟨hi, k, hk, hentry, hbefore⟩
    refine ⟨k, List.getElem?_eq_some_iff.2 ⟨hk, hentry⟩, of_decide_eq_true hi, fun j hj i' hi' => ?_⟩
    obtain ⟨-, rfl⟩ := List.getElem?_eq_some_iff.1 hi'
    simpa using hbefore j hj
  · rintro ⟨k, h⟩
    obtain ⟨hk, hentry⟩ := List.getElem?_eq_some_iff.1 h.entry
    refine ⟨decide_eq_true h.holds, k, hk, hentry, fun j hj => ?_⟩
    simpa using h.before j hj _ (List.getElem?_eq_getElem (Nat.lt_trans hj hk))

end IsFirst

/-! ## Faults -/

/-- What an instruction that is not valid is refused for. Its states are looked at before its move. -/
def Instruction.refusal (states number : ℕ) (i : Instruction) : BuildError :=
  if i.StatesBelow states then .badMove number i.move else .stateOutOfRange number

theorem Instruction.fault?_of_not_valid {states : ℕ} {i : Instruction} (number : ℕ) (h : ¬ i.Valid states) :
    i.fault? states number = some (i.refusal states number) := by
  by_cases hstates : i.StatesBelow states
  · have hmove : ¬ i.MovesOne := fun hmove => h ⟨hstates, hmove⟩
    simp [fault?, refusal, hstates, hmove]
  · simp [fault?, refusal, hstates]

theorem Instruction.fault?_of_valid {states : ℕ} {i : Instruction} (number : ℕ) (h : i.Valid states) :
    i.fault? states number = none := by
  simp [fault?, h.1, h.2]

/-- The text of the refusal begins with the number of the instruction. -/
theorem Instruction.refusal_names (states number : ℕ) (i : Instruction) :
    utf8 "instruction " ++ Bytes.ofNat number ++ utf8 ": " <+: (i.refusal states number).message := by
  have hstates : utf8 ": state id out of range" = utf8 ": " ++ utf8 "state id out of range" := by decide
  have hmove : utf8 ": invalid head movement " = utf8 ": " ++ utf8 "invalid head movement " := by decide
  unfold refusal
  split
  · exact ⟨utf8 "invalid head movement " ++ i.move.text, by simp [BuildError.message, hmove]⟩
  · exact ⟨utf8 "state id out of range", by simp [BuildError.message, hstates]⟩

theorem faultFrom?_eq_some_iff (states : ℕ) (code : List Instruction) (number : ℕ) (e : BuildError) :
    faultFrom? states number code = some e ↔
      ∃ k i, IsFirst (fun i => ¬ i.Valid states) code k i ∧ e = i.refusal states (number + k) := by
  induction code generalizing number with
  | nil =>
    constructor
    · intro h
      cases h
    · rintro ⟨k, i, h, -⟩
      cases h.entry
  | cons first code ih =>
    rw [faultFrom?]
    by_cases hfirst : first.Valid states
    · simp only [Instruction.fault?_of_valid number hfirst, ih,
        isFirst_cons_of_neg (P := fun i => ¬ i.Valid states) (not_not.2 hfirst)]
      constructor
      · rintro ⟨k, i, h, rfl⟩
        exact ⟨k + 1, i, ⟨k, rfl, h⟩, by rw [Nat.add_right_comm, Nat.add_assoc]⟩
      · rintro ⟨-, i, ⟨k, rfl, h⟩, rfl⟩
        exact ⟨k, i, h, by rw [Nat.add_right_comm, Nat.add_assoc]⟩
    · simp only [Instruction.fault?_of_not_valid number hfirst,
        isFirst_cons_of_pos (P := fun i => ¬ i.Valid states) hfirst]
      constructor
      · intro h
        exact ⟨0, first, ⟨rfl, rfl⟩, (Option.some.inj h).symm⟩
      · rintro ⟨k, i, ⟨rfl, rfl⟩, rfl⟩
        rfl

/-! ## Programs -/

namespace Program

theorem build_tooMany {states : StateTable} {code : Array Instruction} (h : ¬ code.size ≤ maxInstructions) :
    build states code = .error .tooMany := by
  rw [build, dif_neg h]

theorem build_eq_error_iff {states : StateTable} {code : Array Instruction} (e : BuildError)
    (h : code.size ≤ maxInstructions) :
    build states code = .error e ↔ faultFrom? states.size 0 code.toList = some e := by
  rw [build, dif_pos h]
  split
  · next e' hfault =>
    rw [hfault, Except.error.injEq, Option.some.injEq]
  · next hfault =>
    constructor
    · intro h
      cases h
    · intro h
      cases hfault.symm.trans h

theorem exists_build_iff (states : StateTable) (code : Array Instruction) :
    (∃ p, build states code = .ok p) ↔ code.size ≤ maxInstructions ∧ ∀ i ∈ code, i.Valid states.size := by
  constructor
  · rintro ⟨p, hp⟩
    obtain ⟨rfl, rfl⟩ := Rules.build_eq_ok hp
    exact ⟨p.size_le, p.code_valid⟩
  · rintro ⟨hsize, hvalid⟩
    have hbuilt : ∃ p, build states code = .ok p ∧ p.code = code ∧ p.states = states :=
      Rules.build_ok hsize fun i hi => hvalid i (by simpa using hi)
    obtain ⟨p, hp, -⟩ := hbuilt
    exact ⟨p, hp⟩

theorem lookup_eq_some_iff (p : Program) (state : StateId) (symbol : Symbol) (i : Instruction) :
    p.lookup state symbol = some i ↔ ∃ k, IsFirst (Instruction.Applies state symbol) p.code.toList k i := by
  rw [lookup_eq_firstMatch, firstMatch, ← Array.find?_toList, find?_eq_some_iff_isFirst]

theorem lookup_eq_none_iff (p : Program) (state : StateId) (symbol : Symbol) :
    p.lookup state symbol = none ↔ ∀ i ∈ p.code, ¬ i.Applies state symbol := by
  rw [lookup_eq_firstMatch, firstMatch, Array.find?_eq_none]
  simp only [decide_eq_true_eq]

/-- Code makes a program if it is within the limit and all of it is valid, and otherwise its first
instruction that is not valid is reported by its number. The program gives the first instruction of the
code that applies, if any does. -/
theorem build_refines_scan (states : StateTable) (code : Array Instruction) :
    ((∃ p, build states code = .ok p) ↔
      code.size ≤ maxInstructions ∧ ∀ i ∈ code, i.Valid states.size) ∧
    (¬ code.size ≤ maxInstructions → build states code = .error .tooMany) ∧
    (code.size ≤ maxInstructions → ∀ e, build states code = .error e ↔
      ∃ k i, IsFirst (fun i => ¬ i.Valid states.size) code.toList k i ∧
        e = (if i.StatesBelow states.size then .badMove k i.move else .stateOutOfRange k) ∧
        utf8 "instruction " ++ Bytes.ofNat k ++ utf8 ": " <+: e.message) ∧
    ∀ p, build states code = .ok p → ∀ state symbol,
      (∀ i, p.lookup state symbol = some i ↔
        ∃ k, IsFirst (fun i => i.source = state ∧ i.read = symbol) code.toList k i) ∧
      (p.lookup state symbol = none ↔ ∀ i ∈ code, ¬ (i.source = state ∧ i.read = symbol)) := by
  refine ⟨exists_build_iff states code, build_tooMany, fun hsize e => ?_, fun p hp state symbol => ?_⟩
  · rw [build_eq_error_iff e hsize, faultFrom?_eq_some_iff]
    simp only [Nat.zero_add]
    constructor
    · rintro ⟨k, i, hfirst, rfl⟩
      exact ⟨k, i, hfirst, rfl, i.refusal_names states.size k⟩
    · rintro ⟨k, i, hfirst, he, -⟩
      exact ⟨k, i, hfirst, he⟩
  · obtain ⟨rfl, -⟩ := Rules.build_eq_ok hp
    exact ⟨p.lookup_eq_some_iff state symbol, p.lookup_eq_none_iff state symbol⟩

end Program

end LogicMill
