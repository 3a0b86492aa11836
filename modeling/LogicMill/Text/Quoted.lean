import LogicMill.Text.Printable
import LogicMill.Text.Utf8

/-! # Quoted text

* `quoteLetter`: one letter as it stands between quotation marks. What cannot be shown is written as
  an escape, and a stray byte by its number.
* `quote`: a text between quotation marks.
* `quoteByte`: a single byte, taken as a character, between apostrophes.
-/

namespace LogicMill.Text
set_option autoImplicit false

/-- The escape that stands for a character by a letter of its own, without the backslash. -/
def escapeLetter? (n : Nat) : Option UInt8 :=
  match n with
  | 0x07 => some 0x61
  | 0x08 => some 0x62
  | 0x09 => some 0x74
  | 0x0A => some 0x6E
  | 0x0B => some 0x76
  | 0x0C => some 0x66
  | 0x0D => some 0x72
  | _ => none

/-- The escape of a byte by its number. -/
def escapeByte (n : Nat) : Bytes := utf8 "\\x" ++ Bytes.hex 2 n

/-- A character between quotation marks that are themselves the character `mark`. -/
def quoteChar (mark : Char) (c : Char) : Bytes :=
  let n := c.toNat
  if c = mark ∨ c = '\\' then utf8 "\\" ++ String.utf8EncodeChar c
  else if isPrintable c then String.utf8EncodeChar c
  else
    match escapeLetter? n with
    | some letter => utf8 "\\" ++ [letter]
    | none =>
      if n < 0x20 ∨ n = 0x7F then escapeByte n
      else if n < 0x10000 then utf8 "\\u" ++ Bytes.hex 4 n
      else utf8 "\\U" ++ Bytes.hex 8 n

/-- A letter between quotation marks. -/
def quoteLetter (mark : Char) : Utf8.Letter → Bytes
  | .char c => quoteChar mark c
  | .stray b => escapeByte b.toNat

/-- A text between quotation marks. -/
def quote (text : Bytes) : Bytes :=
  utf8 "\"" ++ (Utf8.decode text).flatMap (quoteLetter '"') ++ utf8 "\""

/-- The character whose number is a byte, between apostrophes. -/
def quoteByte (b : UInt8) : Bytes :=
  utf8 "'" ++ quoteChar '\'' (Char.ofNat b.toNat) ++ utf8 "'"

end LogicMill.Text
