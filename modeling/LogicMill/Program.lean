import LogicMill.Instruction
import LogicMill.StateTable

/-! # Programs

A program is a list of instructions over a table of state names. Where several instructions are for
the same state and symbol, the first one counts.

* `Index`: the first instruction for each state and symbol, so that it need not be searched.
* `Program`: instructions that are valid for their table, with their index.
* `Program.build`: a program from a table and instructions, or the first fault in these.
* `Program.lookup`: the instruction for a state and symbol.
* `firstMatch`: the same by searching the instructions in order; `Program.lookup_eq_firstMatch` says
  that it is the same.
-/

namespace LogicMill
set_option autoImplicit false

/-! ## The index -/

/-- What an instruction is looked up by. -/
structure Key where
  state : StateId
  code : Int32
deriving Repr, DecidableEq

/-- Keys are ordered by state, then by symbol. -/
def Key.order : Key → Key → Ordering :=
  compareLex (compareOn Key.state) (compareOn Key.code)

instance : Std.TransCmp Key.order :=
  inferInstanceAs (Std.TransCmp (compareLex (compareOn Key.state) (compareOn Key.code)))

/-- Instructions by state and symbol. -/
abbrev Index := Std.TreeMap Key Instruction Key.order

/-- What the instruction is looked up by. -/
def Instruction.key (i : Instruction) : Key := ⟨i.source, i.read.code⟩

/-- The first instruction of the code for each state and symbol. -/
def Index.ofCode (code : Array Instruction) : Index :=
  code.foldl (fun index i => index.insertIfNew i.key i) ∅

/-- The first instruction for a state and symbol, found by searching the code in order. -/
def firstMatch (code : Array Instruction) (state : StateId) (symbol : Symbol) :
    Option Instruction :=
  code.find? fun i => decide (i.Applies state symbol)

theorem Key.order_eq_iff (a b : Key) : Key.order a b = .eq ↔ a = b := by
  obtain ⟨s, c⟩ := a
  obtain ⟨s', c'⟩ := b
  simp [Key.order, compareLex, compareOn, Ordering.then_eq_eq]

/-- What an index holds after further instructions were entered. -/
theorem getElem?_foldl_insertIfNew (code : List Instruction) (index : Index) (k : Key) :
    (code.foldl (fun index i => index.insertIfNew i.key i) index)[k]? =
      index[k]?.or (code.find? fun i => decide (i.key = k)) := by
  induction code generalizing index with
  | nil => simp
  | cons i code ih =>
    rw [List.foldl_cons, ih, Std.TreeMap.getElem?_insertIfNew]
    simp only [Key.order_eq_iff]
    by_cases hk : i.key = k
    · subst hk
      rw [List.find?_cons_of_pos (by simp)]
      by_cases hmem : i.key ∈ index <;> simp [hmem]
    · rw [if_neg (fun h => hk h.1), List.find?_cons_of_neg (by simpa using hk)]

/-! ## Faults -/

/-- Why instructions make no program. Instructions are numbered from 0. -/
inductive BuildError where
  | tooMany
  | stateOutOfRange (number : Nat)
  | badMove (number : Nat) (move : Move)
deriving Repr, DecidableEq

namespace BuildError

def capacity? : BuildError → Option Capacity
  | .tooMany => some .instructions
  | _ => none

def message : BuildError → Bytes
  | .tooMany => Capacity.instructions.message
  | .stateOutOfRange n => utf8 "instruction " ++ Bytes.ofNat n ++ utf8 ": state id out of range"
  | .badMove n m =>
    utf8 "instruction " ++ Bytes.ofNat n ++ utf8 ": invalid head movement " ++ m.text

end BuildError

/-- The fault of one instruction; its states are looked at before its move. -/
def Instruction.fault? (states : Nat) (number : Nat) (i : Instruction) : Option BuildError :=
  if ¬ i.StatesBelow states then some (.stateOutOfRange number)
  else if ¬ i.MovesOne then some (.badMove number i.move)
  else none

/-- The fault of the first instruction that has one; the first instruction is number `number`. -/
def faultFrom? (states : Nat) : (number : Nat) → List Instruction → Option BuildError
  | _, [] => none
  | number, i :: rest =>
    match i.fault? states number with
    | some e => some e
    | none => faultFrom? states (number + 1) rest

theorem valid_of_faultFrom?_eq_none {states : Nat} {code : List Instruction} :
    ∀ {number : Nat}, faultFrom? states number code = none →
      ∀ i ∈ code, i.Valid states := by
  induction code with
  | nil => simp
  | cons j rest ih =>
    intro number h i hi
    unfold faultFrom? at h
    split at h
    · simp at h
    · rename_i hj
      have hvalid : j.Valid states := by
        unfold Instruction.fault? at hj
        split at hj
        · simp at hj
        · split at hj
          · simp at hj
          · exact ⟨by simp_all, by simp_all⟩
      rcases List.mem_cons.1 hi with rfl | hi
      · exact hvalid
      · exact ih h i hi

/-! ## Programs -/

/-- Instructions over a table of state names, with their index. -/
structure Program where
  states : StateTable
  code : Array Instruction
  index : Index
  code_valid : ∀ i ∈ code, i.Valid states.size
  size_le : code.size ≤ maxInstructions
  index_eq : index = Index.ofCode code

namespace Program

/-- The program of the given instructions. -/
def build (states : StateTable) (code : Array Instruction) : Except BuildError Program :=
  if hsize : code.size ≤ maxInstructions then
    match h : faultFrom? states.size 0 code.toList with
    | some e => .error e
    | none =>
      .ok {
        states
        code
        index := Index.ofCode code
        code_valid := fun i hi => valid_of_faultFrom?_eq_none h i (by simpa using hi)
        size_le := hsize
        index_eq := rfl }
  else .error .tooMany

/-- The number of instructions. -/
def size (p : Program) : Nat := p.code.size

/-- The first instruction for a state and symbol. -/
def lookup (p : Program) (state : StateId) (symbol : Symbol) : Option Instruction :=
  p.index[Key.mk state symbol.code]?

/-- The index finds the first instruction for a state and symbol. -/
theorem lookup_eq_firstMatch (p : Program) (state : StateId) (symbol : Symbol) :
    p.lookup state symbol = firstMatch p.code state symbol := by
  rw [lookup, p.index_eq, Index.ofCode, ← Array.foldl_toList, getElem?_foldl_insertIfNew, firstMatch,
    ← Array.find?_toList]
  simp only [Std.TreeMap.getElem?_emptyc, Option.none_or]
  congr 1
  funext i
  obtain ⟨code⟩ := symbol
  obtain ⟨source, ⟨read⟩, target, write, move⟩ := i
  simp [Instruction.key, Instruction.Applies]

end Program

end LogicMill
