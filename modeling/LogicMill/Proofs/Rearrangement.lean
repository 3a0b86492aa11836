import LogicMill.Proofs.Building
import LogicMill.Proofs.Resumption
import Mathlib.Data.Fintype.Card

/-! # Code in another order

Instructions for different states or symbols can change places, and those that are never looked up can be
left out: an instruction behind another one for the same state and symbol, and one of the halting state,
which no run looks up.

* `Rearranges code code' origin`: `code'` is made of `code` in this way; `origin` tells where each of its
  instructions comes from.
* `Rearranges.isFirst`, `Rearranges.firstMatch`: what is looked up in the two.
* `Program.Alike`: programs that no run can tell apart. `Program.Alike.runFrom` is about the steps of a run,
  `Program.Alike.run` about the whole of it.
* `Program.build_rearranged`: rearranged code makes a program, on which every machine makes the same run.
-/

namespace LogicMill
set_option autoImplicit false

/-! ## Code -/

theorem Instruction.applies_iff_key {state : StateId} {symbol : Symbol} {i : Instruction} :
    i.Applies state symbol ↔ i.key = ⟨state, symbol.code⟩ := by
  obtain ⟨code⟩ := symbol
  obtain ⟨source, ⟨read⟩, target, write, move⟩ := i
  simp [Applies, key]

/-- The instructions of `code'` are some of those of `code`, each taken once. Those for the same state and
symbol are in the same order, and one that is left out stands behind another for the same state and symbol,
or is for the halting state. -/
structure Rearranges (code code' : Array Instruction) (origin : Fin code'.size → Fin code.size) : Prop where
  injective : Function.Injective origin
  entry : ∀ k, code'[k] = code[origin k]
  ordered : ∀ j k, j < k → code'[j].key = code'[k].key → origin j < origin k
  dropped : ∀ k, (∀ j, origin j ≠ k) →
    code[k].source = StateId.halt ∨ ∃ j < k, code[j].key = code[k].key

namespace Rearranges

variable {code code' : Array Instruction} {origin : Fin code'.size → Fin code.size} {state : StateId}
  {symbol : Symbol} {k : ℕ} {i : Instruction}

theorem size_le (h : Rearranges code code' origin) : code'.size ≤ code.size := by
  simpa using Fintype.card_le_of_injective origin h.injective

theorem mem (h : Rearranges code code' origin) (hi : i ∈ code') : i ∈ code := by
  obtain ⟨k, hk, rfl⟩ := Array.getElem_of_mem hi
  have hentry := h.entry ⟨k, hk⟩
  exact Array.mem_of_getElem hentry.symm

theorem isFirst (h : Rearranges code code' origin) (hstate : state ≠ StateId.halt)
    (hfirst : IsFirst (Instruction.Applies state symbol) code.toList k i) :
    ∃ k', IsFirst (Instruction.Applies state symbol) code'.toList k' i := by
  obtain ⟨hk, hentry⟩ := List.getElem?_eq_some_iff.1 hfirst.entry
  have hkey : i.key = ⟨state, symbol.code⟩ := Instruction.applies_iff_key.1 hfirst.holds
  have hbefore (j : Fin code.size) (hj : j < k) : code[j].key ≠ ⟨state, symbol.code⟩ := by
    intro hj'
    exact hfirst.before j hj code[j] (by simp) (Instruction.applies_iff_key.2 hj')
  -- The first instruction that applies is not left out: none of its kind stands before it.
  obtain ⟨k', hk'⟩ : ∃ k', origin k' = ⟨k, hk⟩ := by
    by_contra hnone
    have hentry' : code[(⟨k, hk⟩ : Fin code.size)] = i := hentry
    rcases h.dropped ⟨k, hk⟩ (not_exists.1 hnone) with hhalt | ⟨j, hj, hsame⟩
    · rw [hentry'] at hhalt
      exact hstate (hfirst.holds.1.symm.trans hhalt)
    · rw [hentry', hkey] at hsame
      exact hbefore j hj hsame
  obtain rfl : (origin k' : ℕ) = k := congrArg Fin.val hk'
  have hlast : code'[k'] = i := (h.entry k').trans hentry
  refine ⟨k', List.getElem?_eq_some_iff.2 ⟨k'.isLt, hlast⟩, hfirst.holds, fun j hj i' hi' happlies => ?_⟩
  -- An instruction that applies before it was before it.
  obtain ⟨hj', rfl⟩ := List.getElem?_eq_some_iff.1 hi'
  have hkeyj : code'[(⟨j, hj'⟩ : Fin code'.size)].key = ⟨state, symbol.code⟩ :=
    Instruction.applies_iff_key.1 happlies
  have hlt := h.ordered ⟨j, hj'⟩ k' hj (by rw [hkeyj, hlast, hkey])
  rw [h.entry] at hkeyj
  exact hbefore _ hlt hkeyj

theorem firstMatch (h : Rearranges code code' origin) (hstate : state ≠ StateId.halt) (symbol : Symbol) :
    firstMatch code' state symbol = firstMatch code state symbol := by
  unfold LogicMill.firstMatch
  cases hfind : code.find? fun i => decide (i.Applies state symbol) with
  | none =>
    rw [Array.find?_eq_none] at hfind ⊢
    exact fun i hi => hfind i (h.mem hi)
  | some i =>
    rw [← Array.find?_toList, find?_eq_some_iff_isFirst] at hfind ⊢
    obtain ⟨k, hfirst⟩ := hfind
    exact h.isFirst hstate hfirst

end Rearranges

/-! ## Runs -/

namespace Program

/-- Two programs with the same table in which the same instructions are looked up, except in the halting
state. -/
structure Alike (p q : Program) : Prop where
  states : q.states = p.states
  lookup : ∀ state symbol, state ≠ StateId.halt → q.lookup state symbol = p.lookup state symbol

variable {p q : Program}

theorem Alike.runFrom (h : Alike p q) (traced : Bool) (fuel steps : ℕ) (c : Config) (trace : Array Footprint)
    (hc : c.state ≠ StateId.halt) :
    q.runFrom traced fuel steps c trace = p.runFrom traced fuel steps c trace := by
  induction fuel generalizing steps c trace with
  | zero => rfl
  | succ fuel ih =>
    have hrule : q.rule? c = p.rule? c := h.lookup c.state c.tape.current hc
    rw [Program.runFrom, Program.runFrom, hrule]
    cases p.rule? c with
    | none => rfl
    | some i =>
      have hprint : q.footprint steps c i = p.footprint steps c i := by
        rw [footprint, footprint, h.states]
      dsimp only
      rw [hprint]
      split
      · rfl
      · next hhalt => exact ih (steps + 1) (c.apply i) _ hhalt

theorem Alike.run (h : Alike p q) (traced : Bool) (limit : ℕ) (c : Config) :
    q.run traced limit c = p.run traced limit c := by
  unfold Program.run
  split
  · rfl
  · next hc => exact h.runFrom traced limit 0 c #[] hc

theorem alike_of_rearranges {origin : Fin q.code.size → Fin p.code.size} (hstates : q.states = p.states)
    (h : Rearranges p.code q.code origin) : Alike p q := by
  refine ⟨hstates, fun state symbol hstate => ?_⟩
  rw [lookup_eq_firstMatch, lookup_eq_firstMatch, h.firstMatch hstate]

/-- Code that makes a program still does so when it is rearranged, over the same table, and every machine on
the first program makes the same run on the second: it tells the same, leaves the same trace and stands in
the same configuration afterwards. -/
theorem build_rearranged {states : StateTable} {code code' : Array Instruction} {p : Program}
    {origin : Fin code'.size → Fin code.size} (hp : build states code = .ok p)
    (h : Rearranges code code' origin) :
    ∃ q, build states code' = .ok q ∧
      ∀ m : Machine, m.program = p →
        { m with program := q }.run = (m.run.1, m.run.2.1, { m.run.2.2 with program := q }) := by
  obtain ⟨rfl, rfl⟩ := Rules.build_eq_ok hp
  have hvalid : ∀ i ∈ code'.toList, i.Valid p.states.size := fun i hi =>
    p.code_valid i (h.mem (Array.mem_toList_iff.1 hi))
  obtain ⟨q, hq, rfl, hstates⟩ := Rules.build_ok (h.size_le.trans p.size_le) hvalid
  refine ⟨q, hq, ?_⟩
  rintro m rfl
  have hrun := (alike_of_rearranges hstates h).run m.traced m.limit m.config
  have houtcome (r : Run) : r.outcome q = r.outcome m.program := by
    rw [Run.outcome, Run.outcome, hstates]
  unfold Machine.run
  simp only [Machine.traced] at hrun ⊢
  rw [hrun, houtcome]

/-- Two instructions that a machine uses, one hidden by the first of them, and one of the halting state. -/
def crowdedCode : Array Instruction := #[
  ⟨StateId.init, .ofChar 'a', StateId.init, .ofChar 'b', .right⟩,
  ⟨StateId.halt, .ofChar 'a', StateId.init, .ofChar 'c', .left⟩,
  ⟨StateId.init, .ofChar 'a', StateId.halt, .ofChar 'd', .left⟩,
  ⟨StateId.init, .blank, StateId.halt, .ofChar 'e', .left⟩]

/-- The two instructions that are used, in the other order. -/
def sparseCode : Array Instruction := #[
  ⟨StateId.init, .blank, StateId.halt, .ofChar 'e', .left⟩,
  ⟨StateId.init, .ofChar 'a', StateId.init, .ofChar 'b', .right⟩]

theorem rearranges_crowdedCode :
    Rearranges crowdedCode sparseCode
      fun k => if k.val = 0 then ⟨3, by decide⟩ else ⟨0, by decide⟩ where
  injective := by decide
  entry := by decide
  ordered := by decide
  dropped := by decide

theorem build_rearranged_crowdedCode :
    ∃ p q, build .initial crowdedCode = .ok p ∧ build .initial sparseCode = .ok q ∧
      ∀ c limit, ({ program := q, config := c, limit } : Machine).run.1 =
        ({ program := p, config := c, limit } : Machine).run.1 := by
  obtain ⟨p, hp, -⟩ : ∃ p, build .initial crowdedCode = .ok p ∧ p.code = crowdedCode ∧ p.states = .initial :=
    Rules.build_ok (by decide) (by decide)
  obtain ⟨q, hq, hrun⟩ := build_rearranged hp rearranges_crowdedCode
  refine ⟨p, q, hp, hq, fun c limit => ?_⟩
  have h := congrArg Prod.fst (hrun { program := p, config := c, limit } rfl)
  exact h

end Program

end LogicMill
