import LogicMill.Program
import LogicMill.Sink

/-! # Rule text from programs

* `Program.fields`: the parts of an instruction in writing, as they are written one by one.
* `Program.writeRule`, `Program.writeListing`: an instruction, and all of them one to a line, written
  to a device.
* `Program.listing`: the whole listing.
-/

namespace LogicMill.Program
set_option autoImplicit false

/-- An instruction in writing: its fields and the blanks between them. -/
def fields (p : Program) (i : Instruction) : List Bytes :=
  [p.states.name i.source, utf8 " ", i.read.text, utf8 " ", p.states.name i.target, utf8 " ",
    i.write.text, utf8 " ", i.move.text]

/-- Writes one instruction without a line end. -/
def writeRule {σ : Type} [Device σ] (p : Program) (i : Instruction) (w : Sticky σ) : Sticky σ :=
  w.putAll (p.fields i)

/-- Writes instructions, one to a line, up to the first line that fails. -/
def writeRules {σ : Type} [Device σ] (p : Program) : List Instruction → Sticky σ → Sticky σ
  | [], w => w
  | i :: rest, w =>
    let w := (p.writeRule i w).put (utf8 "\n")
    if w.failure.isSome then w else p.writeRules rest w

/-- Writes the program, one instruction to a line. -/
def writeListing {σ : Type} [Device σ] (p : Program) (device : σ) : Sticky σ :=
  p.writeRules p.code.toList ⟨device, none⟩

/-- One line of the listing. -/
def line (p : Program) (i : Instruction) : Bytes := (p.fields i).flatten ++ utf8 "\n"

/-- The program in writing, one instruction to a line. -/
def listing (p : Program) : Bytes := p.code.toList.flatMap p.line

end LogicMill.Program
