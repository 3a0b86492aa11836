/-! # Byte text

Everything that is read, named, quoted or written is a sequence of bytes, which need not be valid
UTF-8.

* `Bytes`: such a sequence.
* `utf8`: the bytes of a string literal or of any other string.
* `Bytes.ofNat`, `Bytes.ofInt`: a number in decimal, with a leading `-` when it is negative.
* `Bytes.splitAt?`: the text before and after the first occurrence of a byte.
* `Bytes.join`: texts with a separator between them.
* `Text.firstLine`: the first line of a text without its line end.
-/

namespace LogicMill
set_option autoImplicit false

/-- Text as it is stored and written: a sequence of bytes, not necessarily valid UTF-8. -/
abbrev Bytes := List UInt8

/-- The UTF-8 encoding of a string. -/
def utf8 (s : String) : Bytes := s.toByteArray.data.toList

namespace Bytes

/-- A natural number in decimal. -/
def ofNat (n : Nat) : Bytes := (Nat.toDigits 10 n).map fun c => UInt8.ofNat c.toNat

/-- An integer in decimal: a leading minus sign if it is negative, never a plus sign. -/
def ofInt : Int → Bytes
  | .ofNat n => ofNat n
  | .negSucc n => 0x2D :: ofNat (n + 1)

/-- The text before the first occurrence of `b` and the text after it, if `b` occurs. -/
def splitAt? (b : UInt8) (text : Bytes) : Option (Bytes × Bytes) :=
  match text.span (· != b) with
  | (_, []) => none
  | (before, _ :: after) => some (before, after)

/-- The texts in order with `separator` between two of them. -/
def join (separator : Bytes) (texts : List Bytes) : Bytes :=
  (texts.intersperse separator).flatten

/-- The digit of a number below sixteen, in lower case. -/
def hexDigit (n : Nat) : UInt8 :=
  if n < 10 then UInt8.ofNat (0x30 + n) else UInt8.ofNat (0x61 + (n - 10))

/-- The `width` lowest hexadecimal digits of a number, the highest first. -/
def hex : (width : Nat) → Nat → Bytes
  | 0, _ => []
  | width + 1, n => hex width (n / 16) ++ [hexDigit (n % 16)]

end Bytes

/-! ## First lines -/

/-- The text without one carriage return at its end. -/
def Text.dropReturn (line : Bytes) : Bytes :=
  if line.getLast? = some 0x0D then line.dropLast else line

/-- The first line of a text: what stands before the first line feed, less one carriage return at
its end. -/
def Text.firstLine (text : Bytes) : Bytes := dropReturn (text.takeWhile (· != 0x0A))

end LogicMill
