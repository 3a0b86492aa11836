import LogicMill.Proofs.Assembly
import LogicMill.Proofs.Interning
import LogicMill.Proofs.Resumption
import Mathlib.Logic.Relation

/-! # Machines in use

A machine is run again and again, and between its runs it is set, its tape is seeded and written, and its
head is moved. Whatever is done and whether it succeeds, the machine stays within its program and its
ring.

* `Machine.Action`, `Machine.act`, `Machine.actAll`: what can be done with a machine, once and repeatedly.
* `Program.Reaches`: the configurations that single steps lead to.
* `Config.Fits`, `Machine.Fits`: the tape has its number of cells, the state is one of the program, and
  the machine may make a step. `Config.Fits.apply` is about one instruction, `Config.Fits.reaches` about
  all configurations of a run, `Machine.Fits.act` about one action, `Machine.Fits.actAll` about a history.
* `Machine.setAll_refused`: settings are made up to the first that is refused.
* `Machine.used_invariant`: all of this for a new machine and any history.
-/

namespace LogicMill
set_option autoImplicit false

/-! ## Actions -/

namespace Machine

inductive Action where
  | run
  | set (settings : List Setting)
  | seed (input : List Symbol)
  | write (pos : Int64) (s : Symbol)
  | setHead (pos : Int64)
  | move (offset : Int8)
deriving Repr, DecidableEq

/-- The machine on another tape, in the same state. -/
def withTape (m : Machine) (t : Tape) : Machine := { m with config := { m.config with tape := t } }

/-- The machine after an action. An input that is too long is not seeded; settings are made up to the
first that is refused. -/
def act (m : Machine) : Action → Machine
  | .run => m.run.2.2
  | .set settings => (m.setAll settings).1
  | .seed input =>
    match m.config.tape.seed input with
    | .ok t => m.withTape t
    | .error _ => m
  | .write pos s => m.withTape (m.config.tape.write pos s)
  | .setHead pos => m.withTape (m.config.tape.setHead pos)
  | .move offset => m.withTape (m.config.tape.shift offset)

def actAll (m : Machine) (actions : List Action) : Machine := actions.foldl act m

theorem actAll_append (m : Machine) (before more : List Action) :
    m.actAll (before ++ more) = (m.actAll before).actAll more := List.foldl_append

theorem actAll_cons (m : Machine) (a : Action) (actions : List Action) :
    m.actAll (a :: actions) = (m.act a).actAll actions := rfl

end Machine

/-! ## Configurations of a run -/

/-- Single steps lead from one configuration to another. -/
def Program.Reaches (p : Program) : Config → Config → Prop :=
  Relation.ReflTransGen fun c d => p.step? c = some d

theorem Program.step?_of_rule? {p : Program} {c : Config} {i : Instruction} (h : p.rule? c = some i) :
    p.step? c = some (c.apply i) := by
  rw [step?, h, Option.map_some]

theorem Program.reaches_runFrom (p : Program) (traced : Bool) (fuel steps : ℕ) (c : Config)
    (trace : Array Footprint) :
    p.Reaches c (p.runFrom traced fuel steps c trace).config ∧
      (p.runFrom traced fuel steps c trace).steps ≤ steps + fuel := by
  induction fuel generalizing steps c trace with
  | zero => exact ⟨.refl, Nat.le_refl _⟩
  | succ fuel ih =>
    unfold runFrom
    cases h : p.rule? c with
    | none => exact ⟨.refl, Nat.le_add_right _ _⟩
    | some i =>
      have hstep := p.step?_of_rule? h
      dsimp only
      split
      · exact ⟨.single hstep, by dsimp only; omega⟩
      · obtain ⟨hreaches, hsteps⟩ := ih (steps + 1) (c.apply i)
          (if traced then trace.push (p.footprint steps c i) else trace)
        exact ⟨.head hstep hreaches, by omega⟩

theorem Program.reaches_run (p : Program) (traced : Bool) (limit : ℕ) (c : Config) :
    p.Reaches c (p.run traced limit c).config ∧ (p.run traced limit c).steps ≤ limit := by
  unfold run
  split
  · exact ⟨.refl, Nat.zero_le _⟩
  · have h := p.reaches_runFrom traced limit 0 c #[]
    rwa [Nat.zero_add] at h

/-- Every instruction that is looked up stands in the code. -/
theorem Program.getElem?_of_rule? {p : Program} {c : Config} {i : Instruction} (h : p.rule? c = some i) :
    ∃ k, k < p.code.size ∧ p.code[k]? = some i := by
  rw [rule?, lookup_eq_firstMatch, firstMatch] at h
  obtain ⟨k, hk, heq⟩ := Array.getElem_of_mem (Array.mem_of_find?_eq_some h)
  exact ⟨k, hk, by rw [Array.getElem?_eq_getElem hk, heq]⟩

/-- The configuration is one of a program with `states` states on a ring of `n` cells. -/
structure Config.Fits (states n : ℕ) (c : Config) : Prop where
  size : c.tape.size = n
  state : 0 ≤ c.state ∧ c.state < states

namespace Config.Fits

variable {states n : ℕ} {c d : Config} {p : Program} {i : Instruction}

theorem head_lt (h : c.Fits states n) : c.tape.head < n := by
  have := c.tape.head_lt
  rw [← h.size]
  exact this

theorem apply (h : c.Fits states n) (hi : i.Valid states) : (c.apply i).Fits states n where
  size := by rw [size_apply, h.size]
  state := hi.1.2

theorem step? (h : c.Fits p.states.size n) (hstep : p.step? c = some d) : d.Fits p.states.size n := by
  obtain ⟨i, hrule, rfl⟩ := Option.map_eq_some_iff.1 hstep
  obtain ⟨k, hk, hi⟩ := p.getElem?_of_rule? hrule
  exact h.apply (p.code_valid i (Array.mem_of_getElem? hi))

theorem reaches (h : c.Fits p.states.size n) (hd : p.Reaches c d) : d.Fits p.states.size n := by
  induction hd with
  | refl => exact h
  | tail _ hstep ih => exact ih.step? hstep

end Config.Fits

/-! ## Tapes -/

theorem Tape.size_new {n : ℤ} {t : Tape} (h : Tape.new n = .ok t) : (t.size : ℤ) = n := by
  unfold new at h
  split at h
  · next hsize =>
    cases h
    simp only [size, Array.size_replicate]
    omega
  · cases h

theorem Tape.size_seed {t t' : Tape} {input : List Symbol} (h : t.seed input = .ok t') : t'.size = t.size := by
  unfold seed at h
  split at h
  · cases h
    simp only [size, Array.size_append, List.size_toArray, Array.size_replicate]
    omega
  · cases h

theorem Tape.seed_error_iff {t : Tape} {input : List Symbol} :
    (∃ e, t.seed input = .error e) ↔ t.size < input.length := by
  unfold seed size
  split <;> simp <;> omega

/-! ## One action -/

namespace Machine

/-- The machine has its program, its tape has `n` cells, its state is one of the program, and it may make
a step. -/
structure Fits (program : Program) (n : ℕ) (m : Machine) : Prop where
  program_eq : m.program = program
  config : m.config.Fits program.states.size n
  limit_pos : 1 ≤ m.limit

variable {program : Program} {n : ℕ} {m m' : Machine}

/-- What a setting can do. Nothing else of the machine changes. -/
theorem set_ok_cases {s : Setting} (h : m.set s = .ok m') :
    (∃ limit : ℤ, 0 < limit ∧ m' = { m with limit := limit.toNat }) ∨
    (∃ id : StateId, (0 ≤ id ∧ id < m.program.states.size) ∧
      m' = { m with config := { m.config with state := id } }) ∨
    ∃ log, m' = { m with log } := by
  cases s with
  | stepLimit limit =>
    simp only [set] at h
    split at h
    · next hpos =>
      cases h
      exact .inl ⟨limit, hpos, rfl⟩
    · cases h
  | start id =>
    simp only [set] at h
    split at h
    · next hid =>
      cases h
      exact .inr (.inl ⟨id, hid, rfl⟩)
    · cases h
  | log level =>
    cases h
    exact .inr (.inr ⟨some level, rfl⟩)
  | noLog =>
    cases h
    exact .inr (.inr ⟨none, rfl⟩)

theorem Fits.set (h : m.Fits program n) {s : Setting} (hset : m.set s = .ok m') :
    m'.Fits program n := by
  obtain ⟨hprogram, hconfig, hlimit⟩ := h
  rcases set_ok_cases hset with ⟨limit, hpos, rfl⟩ | ⟨id, hid, rfl⟩ | ⟨log, rfl⟩
  · have hlimit' : 1 ≤ limit.toNat := by omega
    exact ⟨hprogram, hconfig, hlimit'⟩
  · rw [hprogram] at hid
    exact ⟨hprogram, ⟨hconfig.size, hid⟩, hlimit⟩
  · exact ⟨hprogram, hconfig, hlimit⟩

theorem steps_set {s : Setting} (hset : m.set s = .ok m') : m'.steps = m.steps := by
  rcases set_ok_cases hset with ⟨limit, -, rfl⟩ | ⟨id, -, rfl⟩ | ⟨log, rfl⟩ <;> rfl

theorem setAll_cons_ok {s : Setting} (h : m.set s = .ok m') (settings : List Setting) :
    m.setAll (s :: settings) = m'.setAll settings := by
  rw [setAll, h]

theorem setAll_cons_error {s : Setting} {e : MachineError} (h : m.set s = .error e)
    (settings : List Setting) : m.setAll (s :: settings) = (m, some e) := by
  rw [setAll, h]

theorem Fits.setAll (h : m.Fits program n) (settings : List Setting) :
    (m.setAll settings).1.Fits program n := by
  induction settings generalizing m with
  | nil => exact h
  | cons s settings ih =>
    cases hset : m.set s with
    | error e =>
      rw [setAll_cons_error hset]
      exact h
    | ok m' =>
      rw [setAll_cons_ok hset]
      exact ih (h.set hset)

theorem steps_setAll (m : Machine) (settings : List Setting) : (m.setAll settings).1.steps = m.steps := by
  induction settings generalizing m with
  | nil => rfl
  | cons s settings ih =>
    cases hset : m.set s with
    | error e => rw [setAll_cons_error hset]
    | ok m' => rw [setAll_cons_ok hset, ih m', steps_set hset]

/-- Settings of which one is refused are made up to that one. -/
theorem setAll_refused {settings : List Setting} {e : MachineError}
    (h : (m.setAll settings).2 = some e) :
    ∃ before s rest, settings = before ++ s :: rest ∧
      m.setAll before = ((m.setAll settings).1, none) ∧ (m.setAll settings).1.set s = .error e := by
  induction settings generalizing m with
  | nil => cases h
  | cons s settings ih =>
    cases hset : m.set s with
    | error e' =>
      rw [setAll_cons_error hset] at h ⊢
      cases h
      exact ⟨[], s, settings, rfl, rfl, hset⟩
    | ok m' =>
      rw [setAll_cons_ok hset] at h ⊢
      obtain ⟨before, s', rest, rfl, hbefore, hrefused⟩ := ih h
      refine ⟨s :: before, s', rest, rfl, ?_, hrefused⟩
      rw [setAll_cons_ok hset, hbefore]

theorem Fits.withTape (h : m.Fits program n) {t : Tape} (ht : t.size = n) :
    (m.withTape t).Fits program n :=
  ⟨h.program_eq, ⟨ht, h.config.state⟩, h.limit_pos⟩

theorem Fits.act (h : m.Fits program n) (a : Action) : (m.act a).Fits program n := by
  have hsize := h.config.size
  cases a with
  | run =>
    -- A run is made of single steps, so it is enough that each of them stays within the program.
    obtain ⟨rfl, hconfig, hlimit⟩ := h
    exact ⟨rfl, hconfig.reaches (m.program.reaches_run m.traced m.limit m.config).1, hlimit⟩
  | set settings => exact h.setAll settings
  | seed input =>
    simp only [Machine.act]
    split
    · next t hseed => exact h.withTape ((Tape.size_seed hseed).trans hsize)
    · exact h
  | write pos s => exact h.withTape (by simpa [Tape.write, Tape.size] using hsize)
  | setHead pos => exact h.withTape hsize
  | move offset => exact h.withTape hsize

/-- Only a run changes the number of steps, and it makes no more than it may. -/
theorem steps_act (m : Machine) (a : Action) :
    (a = .run → (m.act a).steps ≤ m.limit) ∧ (a ≠ .run → (m.act a).steps = m.steps) := by
  cases a with
  | run => exact ⟨fun _ => (m.program.reaches_run m.traced m.limit m.config).2, fun h => absurd rfl h⟩
  | set settings => exact ⟨fun h => (nomatch h), fun _ => m.steps_setAll settings⟩
  | seed input =>
    refine ⟨fun h => (nomatch h), fun _ => ?_⟩
    simp only [act]
    split <;> rfl
  | write | setHead | move => exact ⟨fun h => (nomatch h), fun _ => rfl⟩

/-! ## Histories -/

theorem Fits.actAll (h : m.Fits program n) (actions : List Action) :
    (m.actAll actions).Fits program n := by
  induction actions generalizing m with
  | nil => exact h
  | cons a actions ih =>
    rw [actAll_cons]
    exact ih (h.act a)

theorem steps_actAll (m : Machine) {actions : List Action} (h : .run ∉ actions) :
    (m.actAll actions).steps = m.steps := by
  induction actions generalizing m with
  | nil => rfl
  | cons a actions ih =>
    rw [List.mem_cons, not_or] at h
    rw [actAll_cons, ih (m.act a) h.2]
    exact (m.steps_act a).2 (Ne.symm h.1)

theorem steps_last_run (m : Machine) (before : List Action) {more : List Action} (h : .run ∉ more) :
    (m.actAll (before ++ .run :: more)).steps ≤ (m.actAll before).limit := by
  rw [actAll_append, actAll_cons, steps_actAll _ h]
  exact ((m.actAll before).steps_act .run).1 rfl

/-- A new machine, in the initial state of its program, with settings made. -/
theorem create_ok {tape : Tape} {settings : List Setting}
    (h : create (some program) (some tape) settings = .ok m) :
    m = (setAll { program, config := ⟨StateId.init, tape⟩ } settings).1 := by
  simp only [create] at h
  split at h
  · next m' hset =>
    cases h
    rw [hset]
  · cases h

theorem Fits.create {tape : Tape} {settings : List Setting} (hstates : 0 < program.states.size)
    (h : Machine.create (some program) (some tape) settings = .ok m) : m.Fits program tape.size := by
  have hstart : Fits program tape.size { program, config := ⟨StateId.init, tape⟩ } := by
    refine ⟨rfl, ⟨rfl, Int.le_refl 0, ?_⟩, ?_⟩
    · exact Int.ofNat_lt.2 hstates
    · exact Nat.succ_pos _
  rw [create_ok h]
  exact hstart.setAll settings

theorem steps_create {tape : Tape} {settings : List Setting}
    (h : Machine.create (some program) (some tape) settings = .ok m) : m.steps = 0 := by
  rw [create_ok h, steps_setAll]

/-- Whatever is done with a new machine, on a tape of `size` cells and with a program over any table of
states: its tape has `size` cells with the head on one of them, its state is one of the program, and its
step limit is positive; the number of steps is that of the last run and at most the limit of that run.
Every position names a cell; on every configuration that a run comes to the head is on a cell, and the
instruction that is looked up is one of the code. An input is refused exactly if it is longer than the
tape, and then nothing changes; of settings that are refused those before the first refused one are
made. -/
theorem used_invariant {calls : List Bytes} {code : Array Instruction} {program : Program} {size : ℤ}
    {tape : Tape} {settings : List Setting} {m : Machine}
    (hprogram : Program.build (StateTable.interned calls) code = .ok program)
    (htape : Tape.new size = .ok tape)
    (hm : create (some program) (some tape) settings = .ok m) (actions : List Action) :
    let now := m.actAll actions
    (now.program = program ∧ (now.config.tape.cells.size : ℤ) = size ∧
      (now.config.tape.head : ℤ) < size ∧
      (0 ≤ now.config.state ∧ now.config.state < program.states.size) ∧ 1 ≤ now.limit) ∧
    ((.run ∉ actions → now.steps = 0) ∧
      ∀ before more, actions = before ++ .run :: more → .run ∉ more →
        now.steps ≤ (m.actAll before).limit) ∧
    ((∀ pos, (now.config.tape.cellOf pos : ℤ) < size) ∧
      ∀ c, program.Reaches now.config c →
        (c.tape.cells.size : ℤ) = size ∧ (c.tape.head : ℤ) < size ∧
        (0 ≤ c.state ∧ c.state < program.states.size) ∧
        ∀ i, program.rule? c = some i → ∃ k, k < program.code.size ∧ program.code[k]? = some i) ∧
    (∀ input, ((∃ e, now.config.tape.seed input = .error e) ↔ size < input.length) ∧
      (size < input.length → now.act (.seed input) = now)) ∧
    ∀ settings e, (now.setAll settings).2 = some e →
      ∃ before s rest, settings = before ++ s :: rest ∧
        now.setAll before = (now.act (.set settings), none) ∧
        (now.act (.set settings)).set s = .error e := by
  intro now
  have hstates : 0 < program.states.size := by
    rw [(Rules.build_eq_ok hprogram).2]
    exact Nat.lt_of_lt_of_le Nat.two_pos (StateTable.sound_interned calls).two_le_size
  have hsize : (tape.size : ℤ) = size := Tape.size_new htape
  have hnow : now.Fits program tape.size := (Fits.create hstates hm).actAll actions
  have hcells {c : Config} (hc : c.Fits program.states.size tape.size) :
      (c.tape.cells.size : ℤ) = size ∧ (c.tape.head : ℤ) < size := by
    have hcsize : c.tape.cells.size = tape.size := hc.size
    have hhead := hc.head_lt
    omega
  have hrefused (input : List Symbol) :
      (∃ e, now.config.tape.seed input = .error e) ↔ size < input.length := by
    rw [Tape.seed_error_iff, hnow.config.size]
    omega
  refine ⟨⟨hnow.program_eq, (hcells hnow.config).1, (hcells hnow.config).2, hnow.config.state,
    hnow.limit_pos⟩, ⟨fun hrun => ?_, fun before more hactions hrun => ?_⟩, ⟨fun pos => ?_, fun c hc => ?_⟩,
    fun input => ⟨hrefused input, fun hlong => ?_⟩, fun settings e h => setAll_refused h⟩
  · exact (m.steps_actAll hrun).trans (steps_create hm)
  · have hlast := m.steps_last_run before hrun
    rwa [← hactions] at hlast
  · have hpos := now.config.tape.cellOf_lt pos
    have := (hcells hnow.config).1
    omega
  · have hfits := hnow.config.reaches hc
    exact ⟨(hcells hfits).1, (hcells hfits).2, hfits.state, fun i hi => program.getElem?_of_rule? hi⟩
  · obtain ⟨e, herror⟩ := (hrefused input).2 hlong
    simp only [act, herror]

/-- Two steps around a ring of two cells, a limit below these two, a setting that is refused, and a move
by more than the ring. -/
def lowering : List Action :=
  [.seed [.ofChar 'a', .ofChar 'a'], .run, .set [.stepLimit 1, .start 9], .move (-128)]

theorem used_invariant_lowering :
    ∃ tape m, Program.build (StateTable.interned []) stallCode = .ok stalling.program ∧
      Tape.new 2 = .ok tape ∧ create (some stalling.program) (some tape) [.stepLimit 5] = .ok m ∧
      ((m.actAll lowering).config.tape.cells.size : ℤ) = 2 ∧
      ((m.actAll lowering).config.tape.head : ℤ) < 2 ∧
      (m.actAll lowering).config.state < stalling.program.states.size ∧
      (m.actAll lowering).steps ≤ 5 ∧
      ((m.actAll lowering).steps, (m.actAll lowering).limit) = (2, 1) := by
  have hprogram : Program.build (StateTable.interned []) stallCode = .ok stalling.program := rfl
  obtain ⟨tape, htape⟩ : ∃ tape, Tape.new 2 = .ok tape := ⟨_, rfl⟩
  obtain ⟨m, hm⟩ : ∃ m, create (some stalling.program) (some tape) [.stepLimit 5] = .ok m := ⟨_, rfl⟩
  obtain ⟨⟨-, hsize, hhead, hstate, -⟩, ⟨-, hlast⟩, -⟩ := used_invariant hprogram htape hm lowering
  have hsteps := hlast [.seed [.ofChar 'a', .ofChar 'a']] [.set [.stepLimit 1, .start 9], .move (-128)] rfl
    (by decide)
  refine ⟨tape, m, hprogram, htape, hm, hsize, hhead, hstate.2, ?_, ?_⟩
  · cases htape
    cases hm
    exact hsteps
  · cases htape
    cases hm
    decide +kernel

end Machine

end LogicMill
