import LogicMill.Tape

/-! # Tapes in writing

The content of a tape is written from one end to the other: the ring is cut at its longest run of
blanks, so symbols on both sides of cell 0 come out in one piece. Of several longest runs, the one
that ends just left of cell 0 is cut, else the first that is met.

* `Tape.edge?`: the first blank cell whose right neighbour is not blank.
* `Tape.cut`: where the content starts and how many cells are left out, found in one walk around
  the ring from an edge.
* `Tape.render`, `Tape.text`: the content as symbols and in writing.
-/

namespace LogicMill.Tape
set_option autoImplicit false

/-- The symbol `k` cells after cell 0, going around. -/
def cell (t : Tape) (k : Nat) : Symbol :=
  have := Nat.mod_lt k t.size_pos
  t.cells[k % t.cells.size]

/-- A blank cell whose right neighbour is not blank. -/
def isEdge (t : Tape) (k : Nat) : Bool :=
  t.cell k == Symbol.blank && t.cell (k + 1) != Symbol.blank

/-- The first edge among the `count` cells from `k` on. -/
def edgeFrom? (t : Tape) : (count k : Nat) → Option Nat
  | 0, _ => none
  | count + 1, k => if t.isEdge k then some k else t.edgeFrom? count (k + 1)

/-- The first edge of the ring. There is none if all cells are blank, or none is. -/
def edge? (t : Tape) : Option Nat := t.edgeFrom? t.cells.size 0

/-- What a walk around the ring has found: the best place to start the content, the length of the
blank run before it, and the length of the run that the walk is in. -/
structure Cut where
  start : Nat
  gap : Nat
  run : Nat
deriving Repr, DecidableEq

/-- The end of a blank run at cell `pos`, which is not blank. A longer run is better, and among
equals the one that ends just left of cell 0. -/
def Cut.close (c : Cut) (pos : Nat) : Cut :=
  if c.run > c.gap || (c.run == c.gap && c.run > 0 && pos == 0) then ⟨pos, c.run, 0⟩
  else { c with run := 0 }

/-- Walks over the `count` cells from `k` on. -/
def cutFrom (t : Tape) : (count k : Nat) → Cut → Cut
  | 0, k, c => c.close (k % t.cells.size)
  | count + 1, k, c =>
    if t.cell k == Symbol.blank then t.cutFrom count (k + 1) { c with run := c.run + 1 }
    else t.cutFrom count (k + 1) (c.close (k % t.cells.size))

/-- The cut found by walking once around the ring, from the first cell after the edge to the edge
itself, so that no run is met in two pieces. -/
def cut (t : Tape) (edge : Nat) : Cut := t.cutFrom t.cells.size (edge + 1) ⟨0, 0, 0⟩

/-- The `count` symbols from cell `start` on, going around. -/
def slice (t : Tape) (start count : Nat) : List Symbol :=
  (List.range count).map fun k => t.cell (start + k)

/-- The content of the tape without the blanks around it. -/
def render (t : Tape) : List Symbol :=
  match t.edge? with
  | none => if t.cell 0 == Symbol.blank then [] else t.cells.toList
  | some edge =>
    let c := t.cut edge
    t.slice c.start (t.cells.size - c.gap)

/-- The content of the tape in writing. -/
def text (t : Tape) : Bytes := t.render.flatMap Symbol.text

end LogicMill.Tape
