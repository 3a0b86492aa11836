import LogicMill.Proofs.Resumption
import Mathlib.Data.List.Find
import Mathlib.Data.Set.Function

/-! # States under other numbers

What a machine does does not depend on how its states are numbered, as long as the numbers are told
apart and the halting state keeps its own. Only the states that occur have to be told apart.

* `Instruction.rename f`, `Ideal.rename f`: the same with every state `s` called `f s`.
* `Renames f used code`: `f` tells the states of `used` apart, and the code stays within `used`.
* `Renames.firstMatch`, `Renames.step?`, `Renames.run`: searching, one step and a whole run.
* `Program.run_rename`, `Machine.run_rename`: the same for two programs on the ring, and for two machines.
-/

namespace LogicMill
set_option autoImplicit false

def Instruction.rename (f : StateId → StateId) (i : Instruction) : Instruction :=
  { i with source := f i.source, target := f i.target }

def Ideal.rename {A : Type} (f : StateId → StateId) (c : Ideal A) : Ideal A := { c with state := f c.state }

/-- The states in `used` have different names under `f`, the halting state has its own, and the code
leads from states in `used` to states in `used`. -/
structure Renames (f : StateId → StateId) (used : Set StateId) (code : Array Instruction) : Prop where
  injOn : Set.InjOn f used
  halt_mem : StateId.halt ∈ used
  halt_eq : f StateId.halt = StateId.halt
  source_mem : ∀ i ∈ code, i.source ∈ used
  target_mem : ∀ i ∈ code, i.target ∈ used

namespace Renames

variable {f : StateId → StateId} {used : Set StateId} {code : Array Instruction}

theorem firstMatch (h : Renames f used code) {s : StateId} (hs : s ∈ used) (symbol : Symbol) :
    firstMatch (code.map (Instruction.rename f)) (f s) symbol =
      (firstMatch code s symbol).map (Instruction.rename f) := by
  unfold LogicMill.firstMatch
  rw [Array.find?_map, ← Array.find?_toList, ← Array.find?_toList]
  congr 1
  apply List.find?_congr
  intro i hi
  -- `f` need not be injective, but it tells the source of an instruction in the code from `s`.
  have hsource : f i.source = f s ↔ i.source = s :=
    h.injOn.eq_iff (h.source_mem i (Array.mem_toList_iff.1 hi)) hs
  have happlies : (i.rename f).Applies (f s) symbol ↔ i.Applies s symbol := and_congr_left' hsource
  exact decide_eq_decide.2 happlies

theorem halt_iff (h : Renames f used code) {s : StateId} (hs : s ∈ used) :
    f s = StateId.halt ↔ s = StateId.halt := by
  have := h.injOn.eq_iff hs h.halt_mem
  rwa [h.halt_eq] at this

variable {A : Type} [AddGroupWithOne A] [DecidableEq A] {c d : Ideal A}

theorem step? (h : Renames f used code) (hc : c.state ∈ used) :
    (c.rename f).step? (code.map (Instruction.rename f)) = (c.step? code).map (Ideal.rename f) := by
  unfold Ideal.step?
  have hmatch := h.firstMatch hc (c.cells c.head)
  have hstate : (c.rename f).state = f c.state := rfl
  have hsymbol : (c.rename f).cells (c.rename f).head = c.cells c.head := rfl
  rw [hstate, hsymbol, hmatch, Option.map_map, Option.map_map]
  rfl

theorem state_mem (h : Renames f used code) (hstep : c.step? code = some d) : d.state ∈ used := by
  obtain ⟨i, hi, rfl⟩ := Option.map_eq_some_iff.1 hstep
  exact h.target_mem i (Array.mem_of_find?_eq_some hi)

/-- A run under other names ends in the same way after the same number of steps, with the same tape, in
the state that has the other name. -/
theorem run (h : Renames f used code) (limit : ℕ) (hc : c.state ∈ used) :
    (c.rename f).run (code.map (Instruction.rename f)) limit =
        ⟨(c.run code limit).status, (c.run code limit).steps, (c.run code limit).config.rename f⟩ ∧
      (c.run code limit).config.state ∈ used := by
  have hhalt := h.halt_iff hc
  induction limit generalizing c with
  | zero =>
    by_cases hstate : c.state = StateId.halt
    · rw [Ideal.run_of_halt hstate, Ideal.run_of_halt (hhalt.2 hstate)]
      exact ⟨rfl, hc⟩
    · rw [Ideal.run_zero hstate, Ideal.run_zero (fun heq => hstate (hhalt.1 heq))]
      exact ⟨rfl, hc⟩
  | succ limit ih =>
    by_cases hstate : c.state = StateId.halt
    · rw [Ideal.run_of_halt hstate, Ideal.run_of_halt (hhalt.2 hstate)]
      exact ⟨rfl, hc⟩
    · have hstate' : (c.rename f).state ≠ StateId.halt := fun heq => hstate (hhalt.1 heq)
      have hstep' := h.step? hc
      cases hstep : c.step? code with
      | none =>
        rw [hstep, Option.map_none] at hstep'
        rw [Ideal.run_of_stuck hstate hstep, Ideal.run_of_stuck hstate' hstep']
        exact ⟨rfl, hc⟩
      | some d =>
        rw [hstep, Option.map_some] at hstep'
        have hd := h.state_mem hstep
        obtain ⟨hrun, hmem⟩ := ih hd (h.halt_iff hd)
        rw [Ideal.run_of_step hstate hstep, Ideal.run_of_step hstate' hstep', hrun]
        exact ⟨rfl, hmem⟩

end Renames

/-! ## Programs -/

theorem Config.rename_view (f : StateId → StateId) (n : ℕ) (c : Config) :
    (⟨f c.state, c.tape⟩ : Config).view n = (c.view n).rename f := rfl

/-- Two programs that differ in the numbers of their states make the same run. -/
theorem Program.run_rename {p q : Program} {f : StateId → StateId} {used : Set StateId}
    (h : Renames f used p.code) (hq : q.code = p.code.map (Instruction.rename f)) (traced : Bool)
    (limit : ℕ) {c : Config} (hc : c.state ∈ used) :
    (q.run traced limit ⟨f c.state, c.tape⟩).status = (p.run traced limit c).status ∧
    (q.run traced limit ⟨f c.state, c.tape⟩).steps = (p.run traced limit c).steps ∧
    (q.run traced limit ⟨f c.state, c.tape⟩).config =
      ⟨f (p.run traced limit c).config.state, (p.run traced limit c).config.tape⟩ ∧
    (p.run traced limit c).config.state ∈ used := by
  have hp := p.run_follows traced limit c
  have hq' := q.run_follows traced limit ⟨f c.state, c.tape⟩
  obtain ⟨hrun, hmem⟩ := h.run limit (show (c.view c.tape.size).state ∈ used from hc)
  rw [Config.rename_view, hq, hrun] at hq'
  have hstate : (p.run traced limit c).config.state ∈ used := by
    have hview : ((p.run traced limit c).config.view c.tape.size).state ∈ used := by
      rw [hp.config]
      exact hmem
    exact hview
  refine ⟨hq'.status.trans hp.status.symm, hq'.steps.trans hp.steps.symm, ?_, hstate⟩
  refine Config.eq_of_view_eq hq'.size hp.size ?_
  rw [hq'.config, Config.rename_view, hp.config]

/-- Two machines that differ in the numbers of their states, but not in the names, tell the same of
their runs, and leave the same tape. -/
theorem Machine.run_rename {m m' : Machine} {f : StateId → StateId} {used : Set StateId}
    (h : Renames f used m.program.code)
    (hcode : m'.program.code = m.program.code.map (Instruction.rename f))
    (hnames : ∀ s ∈ used, m'.program.states.name (f s) = m.program.states.name s)
    (hlimit : m'.limit = m.limit) (hlog : m'.log = m.log) (hstart : m.config.state ∈ used)
    (hconfig : m'.config = ⟨f m.config.state, m.config.tape⟩) :
    m'.run.1 = { m.run.1 with state := f m.run.1.state } ∧
      m'.run.2.2.config.tape = m.run.2.2.config.tape := by
  have htraced : m'.traced = m.traced := by rw [traced, traced, hlog]
  obtain ⟨hstatus, hsteps, hend, hmem⟩ := Program.run_rename h hcode m.traced m.limit hstart
  unfold run Run.outcome
  simp only [htraced, hlimit, hconfig, hstatus, hsteps, hend, hnames _ hmem, and_self]

end LogicMill
