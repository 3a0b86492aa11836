import LogicMill.Text.Utf8

/-! # Tape symbols

A cell holds a 32-bit code, normally that of a character. Zero is the blank, and codes that belong
to no character are kept as they are and only shown differently.

* `Symbol`, `Symbol.blank`, `Symbol.ofChar`, `Symbol.char?`.
* `Symbol.text`: how a symbol is written. The blank is an underscore.
* `Symbol.readLine`: the symbols of a line of tape text.
-/

namespace LogicMill
set_option autoImplicit false

/-- The content of a tape cell. -/
structure Symbol where
  code : Int32
deriving Repr, DecidableEq

namespace Symbol

/-- The content of an empty cell. -/
def blank : Symbol := ⟨0⟩

instance : Inhabited Symbol := ⟨blank⟩

/-- The symbol of a character. The character U+0000 is the blank. -/
def ofChar (c : Char) : Symbol := ⟨c.val.toInt32⟩

/-- The character of a symbol, if its code belongs to one. -/
def char? (s : Symbol) : Option Char :=
  if h : s.code.toUInt32.toNat.isValidChar then some (Char.ofNatAux s.code.toUInt32.toNat h)
  else none

/-- A symbol in writing: the blank is an underscore, a code without a character is shown by the
replacement character. -/
def text (s : Symbol) : Bytes :=
  if s = blank then utf8 "_"
  else
    match s.char? with
    | some c => String.utf8EncodeChar c
    | none => Utf8.replacement

/-- The symbol for a character of tape text, where an underscore may stand for the blank. -/
def ofTapeChar (underscoreBlank : Bool) (c : Char) : Symbol :=
  if underscoreBlank && c == '_' then blank else ofChar c

/-- The symbols of the first line of a tape text, one for each letter. -/
def readLine (underscoreBlank : Bool) (text : Bytes) : List Symbol :=
  (Utf8.chars (Text.firstLine text)).map (ofTapeChar underscoreBlank)

end Symbol

end LogicMill
