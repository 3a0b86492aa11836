import LogicMill.Capacity
import LogicMill.Text.Utf8
import Std.Data.TreeMap

/-! # State names

A state table numbers state names in the order in which they first occur. It only grows.

* `StateTable`: names by number and numbers by name, each the inverse of the other.
* `StateTable.initial`: the table of the two built-in names, `INIT` and `HALT`.
* `StateTable.intern`: the number of a name, which is added if it is new and fits.
* `StateTable.find?`, `StateTable.name`, `StateTable.size`: the views.
-/

namespace LogicMill
set_option autoImplicit false

/-- State names by number, and their numbers by name. -/
structure StateTable where
  names : Array Bytes
  ids : Std.TreeMap Bytes Nat
  /-- The characters taken up by all names, each with one more to end it. -/
  used : Nat
  ids_iff : ∀ (name : Bytes) (id : Nat), ids[name]? = some id ↔ names[id]? = some name

/-- Why a name cannot be added to a table. -/
inductive InternError where
  | emptyName
  | nameTooLong
  | tableFull
  | storageFull
deriving Repr, DecidableEq

namespace InternError

/-- The limit that stands in the way, if it is a limit. -/
def capacity? : InternError → Option Capacity
  | .emptyName => none
  | .nameTooLong => some .nameLength
  | .tableFull => some .stateTable
  | .storageFull => some .storage

def message (e : InternError) : Bytes :=
  match e.capacity? with
  | some c => c.message
  | none => utf8 "empty state name"

end InternError

namespace StateTable

/-- The number of names in the table. -/
def size (t : StateTable) : Nat := t.names.size

/-- The number of a name that is in the table. -/
def find? (t : StateTable) (name : Bytes) : Option Nat := t.ids[name]?

/-- The name with the given number, empty if there is none. -/
def name (t : StateTable) (id : Int) : Bytes :=
  if id < 0 then [] else t.names[id.toNat]?.getD []

/-- The table without names. -/
def empty : StateTable where
  names := #[]
  ids := ∅
  used := 0
  ids_iff := by simp

/-- The table with one more name, which gets the next number. -/
def add (t : StateTable) (name : Bytes) (fresh : t.find? name = none) : StateTable where
  names := t.names.push name
  ids := t.ids.insert name t.names.size
  used := t.used + Utf8.count name + 1
  ids_iff := by
    intro other id
    rw [Std.TreeMap.getElem?_insert, Array.getElem?_push]
    have hfresh : ∀ k : Nat, t.names[k]? ≠ some name := by
      intro k hk
      have := (t.ids_iff name k).2 hk
      simp [find?] at fresh
      simp [fresh] at this
    by_cases hname : name = other
    · subst hname
      by_cases hid : id = t.names.size
      · simp [hid]
      · have hne : ¬ t.names.size = id := fun h => hid h.symm
        simp [hid, hne, hfresh id]
    · have hcmp : ¬ compare name other = .eq := fun h =>
        hname (Std.LawfulEqCmp.eq_of_compare h)
      simp only [hcmp, if_false]
      rw [t.ids_iff other id]
      by_cases hid : id = t.names.size
      · subst hid
        simp [hname]
      · simp [hid]

/-- The table of the built-in states. -/
def initial : StateTable :=
  (empty.add (utf8 "INIT") rfl).add (utf8 "HALT") rfl

/-- The number of a name. A new name is added if it has from one to `maxNameLength` letters and the
table has room for it. -/
def intern (t : StateTable) (name : Bytes) : Except InternError (Nat × StateTable) :=
  match h : t.find? name with
  | some id => .ok (id, t)
  | none =>
    if Utf8.count name = 0 then .error .emptyName
    else if maxNameLength < Utf8.count name then .error .nameTooLong
    else if maxStates ≤ t.size then .error .tableFull
    else if nameStorage < t.used + Utf8.count name + 1 then .error .storageFull
    else .ok (t.size, t.add name h)

end StateTable

end LogicMill
