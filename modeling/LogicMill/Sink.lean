import LogicMill.Trouble

/-! # Writing to places that may fail

* `Device`: a place that takes bytes, some or all of those offered, and may fail.
* `Budget`: the device that takes a given number of bytes in all.
* `Sticky`: a writer that stops at the first failure of its device and remembers it.
-/

namespace LogicMill
set_option autoImplicit false

/-! ## Devices -/

/-- What a device answers to a write: what it has become, how many bytes it took, and why it did not
take all. -/
structure Receipt (σ : Type) where
  device : σ
  taken : Nat
  failure : Option Bytes

/-- Places of type `σ` that take bytes. -/
class Device (σ : Type) where
  put : σ → Bytes → Receipt σ

/-- A device that has stored some bytes and has room for a number of bytes more, or for any number.
A write beyond that stores what fits and fails. -/
structure Budget where
  stored : Array UInt8 := #[]
  room : Option Nat := none
deriving Repr, DecidableEq

namespace Budget

/-- Why a budget fails. -/
def full : Bytes := utf8 "disk full"

def put (b : Budget) (data : Bytes) : Receipt Budget :=
  match b.room with
  | none => ⟨{ b with stored := b.stored.appendList data }, data.length, none⟩
  | some room =>
    if data.length ≤ room then
      ⟨⟨b.stored.appendList data, some (room - data.length)⟩, data.length, none⟩
    else ⟨⟨b.stored.appendList (data.take room), some 0⟩, room, some full⟩

instance : Device Budget := ⟨put⟩

/-- What the device holds. -/
def bytes (b : Budget) : Bytes := b.stored.toList

end Budget

/-! ## Sticky writers -/

/-- A writer that remembers the first failure of its device and then leaves it alone. -/
structure Sticky (σ : Type) where
  device : σ
  failure : Option Trouble := none

namespace Sticky

variable {σ : Type} [Device σ]

/-- Writes bytes; the number is how many of them were taken. -/
def write (w : Sticky σ) (data : Bytes) : Nat × Sticky σ :=
  match w.failure with
  | some _ => (0, w)
  | none =>
    let r := Device.put w.device data
    (r.taken, ⟨r.device, r.failure.map fun cause => ⟨cause, [utf8 "write failed"]⟩⟩)

/-- Writes bytes whose number does not matter. -/
def put (w : Sticky σ) (data : Bytes) : Sticky σ := (w.write data).2

/-- Writes texts one after another, each on its own. -/
def putAll (w : Sticky σ) (parts : List Bytes) : Sticky σ := parts.foldl put w

end Sticky

end LogicMill
