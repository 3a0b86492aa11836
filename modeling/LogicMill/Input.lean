import LogicMill.Text.Utf8
import LogicMill.Trouble

/-! # Inputs and their encoding

An input is a text that ends, or that cannot be read on from some point.

* `Input`: such a text.
* `Input.decode`: the input in UTF-8. A byte order mark tells UTF-16 from UTF-8; after the mark of
  UTF-8 the text is taken as it is, and without any mark broken forms are mended.
* `Input.readLine`: the first line.
-/

namespace LogicMill
set_option autoImplicit false

/-- A text, and why it cannot be read beyond its last byte; `none` if it ends there. -/
structure Input where
  text : Bytes
  failure : Option Bytes := none
deriving Repr, DecidableEq

/-- The ways in which a text may be encoded. -/
inductive Encoding where
  | plain
  | marked
  | utf16 (bigEndian : Bool)
deriving Repr, DecidableEq

namespace Encoding

/-- The encoding that the first bytes of a text show, and the text without its mark. -/
def detect : Bytes → Encoding × Bytes
  | 0xFF :: 0xFE :: rest => (.utf16 false, rest)
  | 0xFE :: 0xFF :: rest => (.utf16 true, rest)
  | 0xEF :: 0xBB :: 0xBF :: rest => (.marked, rest)
  | text => (.plain, text)

/-- The 16-bit units of a text, read after `done`, last first; the flag tells that a single byte is
left over. -/
def unitsFrom (bigEndian : Bool) : (done : List Nat) → Bytes → List Nat × Bool
  | done, a :: b :: rest =>
    let unit := if bigEndian then a.toNat * 256 + b.toNat else b.toNat * 256 + a.toNat
    unitsFrom bigEndian (unit :: done) rest
  | done, [_] => (done.reverse, true)
  | done, [] => (done.reverse, false)

def isSurrogate (unit : Nat) : Bool := 0xD800 ≤ unit && unit ≤ 0xDFFF

def isLowSurrogate (unit : Nat) : Bool := 0xDC00 ≤ unit && unit ≤ 0xDFFF

/-- The character of two surrogates, of which the second is a low one. -/
def pair (first second : Nat) : Char :=
  if isLowSurrogate first then '\uFFFD'
  else Char.ofNat (0x10000 + (first - 0xD800) * 0x400 + (second - 0xDC00))

/-- The characters of 16-bit units, read after `done`, last first. A surrogate takes a low surrogate
after it along, also if the two make no character. With `cut`, a surrogate at the end is left out,
as what would follow it is not known. -/
def charsFrom (cut : Bool) : (done : List Char) → List Nat → List Char
  | done, [] => done.reverse
  | done, [unit] =>
    if !isSurrogate unit then (Char.ofNat unit :: done).reverse
    else if cut then done.reverse
    else ('\uFFFD' :: done).reverse
  | done, unit :: second :: rest =>
    if !isSurrogate unit then charsFrom cut (Char.ofNat unit :: done) (second :: rest)
    else if isLowSurrogate second then charsFrom cut (pair unit second :: done) rest
    else charsFrom cut ('\uFFFD' :: done) (second :: rest)

/-- A text of 16-bit units in UTF-8. -/
def fromUtf16 (bigEndian cut : Bool) (text : Bytes) : Bytes :=
  let (units, odd) := unitsFrom bigEndian [] text
  let chars := charsFrom cut [] units
  Utf8.encode chars ++ if odd && !cut then Utf8.replacement else []

end Encoding

namespace Input

/-- The input in UTF-8. Nothing comes of an input that fails before three bytes were read, as its
encoding is then not known. -/
def decode (i : Input) : Input :=
  let cut := i.failure.isSome
  if cut && i.text.length < 3 then { i with text := [] }
  else
    match Encoding.detect i.text with
    | (.plain, text) => { i with text := Utf8.mend cut text }
    | (.marked, text) => { i with text }
    | (.utf16 bigEndian, text) => { i with text := Encoding.fromUtf16 bigEndian cut text }

/-- The first line of an input, without its line end. The line must be complete before a failure. -/
def readLine (i : Input) : Except Trouble Bytes :=
  match i.failure with
  | some cause =>
    if i.text.contains 0x0A then .ok (Text.firstLine i.text)
    else .error ⟨cause, [utf8 "read failed"]⟩
  | none => .ok (Text.firstLine i.text)

end Input

end LogicMill
