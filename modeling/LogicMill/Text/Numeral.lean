import LogicMill.Text.Bytes

/-! # Numbers and truth values in writing

* `Numeral.natural`: digits in a base, read up to the largest 64-bit number.
* `Numeral.decimal`: an integer in decimal.
* `Numeral.literal`: an integer that may announce its base and separate its digits.
* `Numeral.Refusal`: what is wrong with a text that is no such integer.
* `boolean?`: the texts for true and false.
-/

namespace LogicMill.Numeral
set_option autoImplicit false

/-- Why a text is no number of the wanted kind. -/
inductive Refusal where
  | badForm
  | outOfRange
deriving Repr, DecidableEq

def Refusal.text : Refusal → Bytes
  | .badForm => utf8 "invalid syntax"
  | .outOfRange => utf8 "value out of range"

/-- The value of a digit; letters count on from ten, in either case. -/
def digit? (b : UInt8) : Option Nat :=
  if 0x30 ≤ b && b ≤ 0x39 then some (b.toNat - 0x30)
  else if 0x61 ≤ b && b ≤ 0x7A then some (b.toNat - 0x61 + 10)
  else if 0x41 ≤ b && b ≤ 0x5A then some (b.toNat - 0x41 + 10)
  else none

/-- Reads digits after those with the value `n`. The range is left at the first digit that leads out
of the unsigned 64-bit numbers, whatever follows it. With `gaps`, underscores are passed over. -/
def natural (base : Nat) (gaps : Bool) : (n : Nat) → Bytes → Except Refusal Nat
  | n, [] => .ok n
  | n, b :: rest =>
    if gaps && b == 0x5F then natural base gaps n rest
    else
      match digit? b with
      | none => .error .badForm
      | some d =>
        if base ≤ d then .error .badForm
        else if Nat.pow 2 64 ≤ n * base + d then .error .outOfRange
        else natural base gaps (n * base + d) rest

/-- A sign and what follows it. -/
def splitSign : Bytes → Bool × Bytes
  | 0x2D :: rest => (true, rest)
  | 0x2B :: rest => (false, rest)
  | text => (false, text)

/-- The integer of a sign and a size, if it is a signed 64-bit number. -/
def signed (negative : Bool) (n : Nat) : Except Refusal Int :=
  if negative then if n ≤ Nat.pow 2 63 then .ok (-(n : Int)) else .error .outOfRange
  else if n < Nat.pow 2 63 then .ok n else .error .outOfRange

/-- An integer in decimal with an optional sign. -/
def decimal (text : Bytes) : Except Refusal Int := do
  let (negative, digits) := splitSign text
  if digits = [] then throw .badForm
  signed negative (← natural 10 false 0 digits)

/-- The base that the digits announce, and the digits proper: `0b`, `0o` and `0x`, in either case,
announce themselves, and any other leading zero means base eight. -/
def splitBase : Bytes → Nat × Bytes
  | 0x30 :: b :: d :: rest =>
    if b == 0x62 || b == 0x42 then (2, d :: rest)
    else if b == 0x6F || b == 0x4F then (8, d :: rest)
    else if b == 0x78 || b == 0x58 then (16, d :: rest)
    else (8, b :: d :: rest)
  | 0x30 :: rest => (8, rest)
  | text => (10, text)

/-- What the last character was, for the rule on underscores. -/
inductive Before where
  | start
  | digit
  | gap
  | other
deriving Repr, DecidableEq

/-- Whether each underscore stands between two digits, the text following what `before` says. -/
def gapsOkFrom (hexadecimal : Bool) : Before → Bytes → Bool
  | before, [] => before != .gap
  | before, b :: rest =>
    if (0x30 ≤ b && b ≤ 0x39) ||
        (hexadecimal && ((0x61 ≤ b && b ≤ 0x66) || (0x41 ≤ b && b ≤ 0x46))) then
      gapsOkFrom hexadecimal .digit rest
    else if b == 0x5F then before == .digit && gapsOkFrom hexadecimal .gap rest
    else before != .gap && gapsOkFrom hexadecimal .other rest

/-- Whether underscores only separate digits; an announced base counts as a digit. -/
def gapsOk : Bytes → Bool
  | 0x30 :: b :: rest =>
    if b == 0x62 || b == 0x42 || b == 0x6F || b == 0x4F then gapsOkFrom false .digit rest
    else if b == 0x78 || b == 0x58 then gapsOkFrom true .digit rest
    else gapsOkFrom false .start (0x30 :: b :: rest)
  | text => gapsOkFrom false .start text

/-- An integer with an optional sign, an optional base and underscores between digits. -/
def literal (text : Bytes) : Except Refusal Int := do
  let (negative, body) := splitSign text
  if body = [] then throw .badForm
  let (base, digits) := splitBase body
  let n ← natural base true 0 digits
  if body.contains 0x5F && !gapsOk body then throw .badForm
  signed negative n

end LogicMill.Numeral

namespace LogicMill.Text
set_option autoImplicit false

/-- The truth value that a text stands for. -/
def boolean? (text : Bytes) : Option Bool :=
  if [utf8 "1", utf8 "t", utf8 "T", utf8 "TRUE", utf8 "true", utf8 "True"].contains text then
    some true
  else if [utf8 "0", utf8 "f", utf8 "F", utf8 "FALSE", utf8 "false", utf8 "False"].contains text then
    some false
  else none

/-- A truth value in writing. -/
def ofBool (b : Bool) : Bytes := if b then utf8 "true" else utf8 "false"

end LogicMill.Text
