import LogicMill.Text.Numeral
import LogicMill.Text.Utf8

/-! # Numbers and moments in TOML

* `Scalar`: a value that has no parts. Of real numbers and moments only the form is of interest.
* `Scalar.number?`: the number or moment at the front of a text, with the text after it.
* `isReal`, `isMoment`: the texts that are real numbers and moments.
-/

namespace LogicMill.Toml
set_option autoImplicit false

/-- A value without parts. -/
inductive Scalar where
  | text (content : Bytes)
  | integer (n : Int)
  | truth (b : Bool)
  | real
  | moment
deriving Repr, DecidableEq

/-! ## Integers -/

/-- A digit in base sixteen. -/
def isHex (c : Char) : Bool :=
  c.isDigit || ('a' ≤ c && c ≤ 'f') || ('A' ≤ c && c ≤ 'F')

/-- The digits of the base that a letter announces. -/
def digitOf? : Char → Option (Char → Bool)
  | 'b' => some fun c => c == '0' || c == '1'
  | 'o' => some fun c => '0' ≤ c && c ≤ '7'
  | 'x' => some isHex
  | _ => none

/-- Whether decimal digits, which may have a sign before them, start with a zero that is not all
there is. -/
def hasLeadingZero : List Char → Bool
  | '-' :: '0' :: _ :: _ => true
  | '+' :: '0' :: _ :: _ => true
  | '0' :: _ :: _ => true
  | _ => false

/-- The 64-bit integer that a numeral stands for. -/
def integer? (numeral : List Char) : Option Scalar :=
  match Numeral.literal (Utf8.encode numeral) with
  | .ok n => some (.integer n)
  | .error _ => none

/-! ## Real numbers -/

/-- Whether a text consists of digits with single underscores between them. -/
def isDigits : List Char → Bool
  | [c] => c.isDigit
  | c :: '_' :: rest => c.isDigit && isDigits rest
  | c :: rest => c.isDigit && isDigits rest
  | [] => false

/-- A text without the sign at its front. -/
def dropSign : List Char → List Char
  | '-' :: rest => rest
  | '+' :: rest => rest
  | text => text

/-- The number that digits stand for, other characters being passed over. -/
def valueOf (digits : List Char) : Nat :=
  digits.foldl (fun n c => if c.isDigit then n * 10 + (c.toNat - 0x30) else n) 0

/-- The number that the digits of an exponent stand for. From ten thousand on, further digits are passed
over. -/
def exponentOf (digits : List Char) : Nat :=
  digits.foldl (fun n c =>
    if c.isDigit && n < 10000 then n * 10 + (c.toNat - 0x30) else n) 0

/-- The least size that rounds to no finite double: half a unit above the largest one. -/
def realBound : Nat := Nat.pow 2 1024 - Nat.pow 2 970

/-- Whether the number `digits * 10 ^ exponent` is below the bound. Exponents that settle this by
themselves are not written out. -/
def isFinite (digits : Nat) (count : Nat) (exponent : Int) : Bool :=
  if digits = 0 ∨ exponent + count < 300 then true
  else if 400 < exponent then false
  else if 0 ≤ exponent then digits * Nat.pow 10 exponent.toNat < realBound
  else digits < realBound * Nat.pow 10 (-exponent).toNat

/-- Whether a text is a real number: digits, then a fraction, an exponent or both. -/
def isReal (text : List Char) : Bool :=
  let (mantissa, exponent) := text.span fun c => c != 'e' && c != 'E'
  let (whole, fraction) := mantissa.span (· != '.')
  let formOk := isDigits (dropSign whole) && !hasLeadingZero whole &&
    (fraction = [] || isDigits fraction.tail) &&
    (exponent = [] || isDigits (dropSign exponent.tail))
  let places := (fraction.filter Char.isDigit).length
  let digits := whole ++ fraction
  let shift : Int := exponentOf exponent
  let shift := if exponent.tail.head? = some '-' then -shift else shift
  formOk && isFinite (valueOf digits) (digits.filter Char.isDigit).length (shift - places)

/-! ## Moments -/

/-- The two-digit number at the front of a text. -/
def two? : List Char → Option (Nat × List Char)
  | a :: b :: rest => if a.isDigit && b.isDigit then some (valueOf [a, b], rest) else none
  | _ => none

/-- The text after a character that it must start with. -/
def after? (c : Char) : List Char → Option (List Char)
  | d :: rest => if c = d then some rest else none
  | [] => none

/-- The number of days in a month. -/
def daysIn (year month : Nat) : Nat :=
  if month = 2 then
    if (year % 4 = 0 ∧ year % 100 ≠ 0) ∨ year % 400 = 0 then 29 else 28
  else if month = 4 ∨ month = 6 ∨ month = 9 ∨ month = 11 then 30
  else 31

/-- The text after a date. -/
def afterDate? (text : List Char) : Option (List Char) := do
  let (century, rest) ← two? text
  let (year, rest) ← two? rest
  let (month, rest) ← two? (← after? '-' rest)
  let (day, rest) ← two? (← after? '-' rest)
  if 1 ≤ month ∧ month ≤ 12 ∧ 1 ≤ day ∧ day ≤ daysIn (century * 100 + year) month then some rest
  else none

/-- The text after a time of day. -/
def afterTime? (text : List Char) : Option (List Char) := do
  let (hour, rest) ← two? text
  let (minute, rest) ← two? (← after? ':' rest)
  let (second, rest) ← two? (← after? ':' rest)
  if hour < 24 ∧ minute < 60 ∧ second < 60 then
    match rest with
    | '.' :: c :: rest => if c.isDigit then some (rest.dropWhile Char.isDigit) else none
    | rest => some rest
  else none

/-- Whether a text is a distance from universal time. -/
def isZone : List Char → Bool
  | ['Z'] => true
  | sign :: rest =>
    (sign == '+' || sign == '-') &&
      match two? rest with
      | some (hour, ':' :: rest) =>
        match two? rest with
        | some (minute, []) => hour ≤ 24 && minute ≤ 60
        | _ => false
      | _ => false
  | [] => false

/-- Whether a text is a date, a time of day, or both with or without a zone. A small letter or a
blank may stand for the letter between date and time. -/
def isMoment (text : List Char) : Bool :=
  let text := text.map fun c => if c = 't' ∨ c = ' ' then 'T' else if c = 'z' then 'Z' else c
  match afterDate? text with
  | some [] => true
  | some ('T' :: rest) =>
    match afterTime? rest with
    | some zone => zone = [] || isZone zone
    | none => false
  | some _ => false
  | none => afterTime? text = some []

/-! ## Reading -/

def isRealChar (c : Char) : Bool :=
  c.isDigit || c == '_' || c == '.' || c == '-' || c == '+' || c == 'e' || c == 'E'

def isMomentChar (c : Char) : Bool :=
  c.isDigit || c == '-' || c == ':' || c == 'T' || c == 't' || c == ' ' || c == '.' || c == 'Z' ||
    c == 'z' || c == '+'

/-- A text without the blanks at its end. -/
def trimEnd (text : List Char) : List Char := (text.reverse.dropWhile (· == ' ')).reverse

/-- The integer or real number at the front of a text, which is in base ten. -/
def decimal? (sign text : List Char) : Option (Scalar × List Char) :=
  let (digits, rest) := text.span fun c => c.isDigit || c == '_'
  if rest.head? = some '.' ∨ rest.head? = some 'e' ∨ rest.head? = some 'E' then
    let (numeral, rest) := text.span isRealChar
    if isReal (sign ++ numeral) then some (.real, rest) else none
  else if hasLeadingZero (sign ++ digits) then none
  else (integer? (sign ++ digits)).map fun n => (n, rest)

/-- The number or moment at the front of a text that starts with a digit. -/
def unsigned? (text : List Char) : Option (Scalar × List Char) :=
  match text with
  | '0' :: mark :: rest =>
    match digitOf? mark with
    | some isDigit =>
      if rest.head?.any isDigit then
        let (digits, rest) := rest.span fun c => isDigit c || c == '_'
        (integer? ('0' :: mark :: digits)).map fun n => (n, rest)
      else none
    | none => plain
  | _ => plain
where
  plain : Option (Scalar × List Char) :=
    let next := (text.dropWhile Char.isDigit).head?
    if next = some '-' ∨ next = some ':' then
      let (moment, rest) := text.span isMomentChar
      if isMoment (trimEnd moment) then some (.moment, rest) else none
    else decimal? [] text

/-- The number or moment at the front of a text. -/
def number? : List Char → Option (Scalar × List Char)
  | 'i' :: 'n' :: 'f' :: rest => some (.real, rest)
  | 'n' :: 'a' :: 'n' :: rest => some (.real, rest)
  | c :: rest =>
    if c = '+' ∨ c = '-' then
      match rest with
      | 'i' :: 'n' :: 'f' :: rest => some (.real, rest)
      | 'n' :: 'a' :: 'n' :: rest => some (.real, rest)
      | '0' :: mark :: _ => if (digitOf? mark).isSome then none else decimal? [c] rest
      | d :: _ => if d.isDigit then decimal? [c] rest else none
      | [] => none
    else if c.isDigit then unsigned? (c :: rest)
    else none
  | [] => none

end LogicMill.Toml
