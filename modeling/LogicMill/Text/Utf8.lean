import LogicMill.Text.Bytes

/-! # UTF-8 as a sequence of letters

A byte text is read as a sequence of letters. A letter is a Unicode scalar value in its one UTF-8
form, or a single byte that begins no such form; so every text can be read, and no byte is lost.

* `Lead`: what the first byte of a longer form promises about the bytes after it.
* `Lead.matched`: how many bytes keep that promise.
* `Letter`: one scalar value or one stray byte, with its `size` in bytes.
* `Letter.read`: the letter at the front of a text.
* `decode`, `encode`: between byte texts and letters or characters.
* `mend`: a text in which each longest broken form is replaced by one replacement character.
* `Text.isBlank`, `Text.trim`: the white space characters of Unicode, line ends included, and a text
  without them at its two ends. A stray byte is not white space.
-/

namespace LogicMill
set_option autoImplicit false

namespace Utf8

/-! ## Lead bytes -/

/-- What the first byte of a longer form promises: how many bytes follow, the range of the first
of them, and the part of the value that the lead byte itself contributes. -/
structure Lead where
  extra : Nat
  lo : UInt8
  hi : UInt8
  bits : Nat
deriving Repr, DecidableEq

/-- The promise of a lead byte. The ranges leave out forms longer than needed, surrogates and
values above U+10FFFF, so a promise that is kept always gives a scalar value. -/
def lead? (b : UInt8) : Option Lead :=
  if b < 0xC2 then none
  else if b ≤ 0xDF then some ⟨1, 0x80, 0xBF, b.toNat - 0xC0⟩
  else if b = 0xE0 then some ⟨2, 0xA0, 0xBF, 0⟩
  else if b = 0xED then some ⟨2, 0x80, 0x9F, 13⟩
  else if b ≤ 0xEF then some ⟨2, 0x80, 0xBF, b.toNat - 0xE0⟩
  else if b = 0xF0 then some ⟨3, 0x90, 0xBF, 0⟩
  else if b ≤ 0xF3 then some ⟨3, 0x80, 0xBF, b.toNat - 0xF0⟩
  else if b = 0xF4 then some ⟨3, 0x80, 0x8F, 4⟩
  else none

/-- A byte that may stand third or fourth in a longer form. -/
def isContinuation (b : UInt8) : Bool := 0x80 ≤ b && b ≤ 0xBF

/-- How many of the bytes that follow a lead byte keep its promise, at most `extra`. -/
def Lead.matched (l : Lead) : Bytes → Nat
  | [] => 0
  | x :: rest =>
    if l.lo ≤ x && x ≤ l.hi then
      1 + ((rest.take (l.extra - 1)).takeWhile isContinuation).length
    else 0

/-- The number written by a lead byte and the bytes after it, six bits from each of these. -/
def Lead.value (l : Lead) (tail : Bytes) : Nat :=
  tail.foldl (fun v x => v * 64 + (x.toNat - 0x80)) l.bits

/-! ## Letters -/

/-- One unit of a byte text: a Unicode scalar value, or a byte that is part of none. -/
inductive Letter where
  | char (c : Char)
  | stray (b : UInt8)
deriving Repr, DecidableEq

/-- The number of bytes that a letter takes up. -/
def Letter.size : Letter → Nat
  | .char c => c.utf8Size
  | .stray _ => 1

/-- The letter as a character, a stray byte being shown by the replacement character. -/
def Letter.toChar : Letter → Char
  | .char c => c
  | .stray _ => '\uFFFD'

/-- The bytes of a letter. -/
def Letter.bytes : Letter → Bytes
  | .char c => String.utf8EncodeChar c
  | .stray b => [b]

/-- The letter at the front of the text `b :: rest`. A lead byte whose promise is broken is a stray
byte by itself, and the text after it is read anew. -/
def Letter.read (b : UInt8) (rest : Bytes) : Letter :=
  if b < 0x80 then .char (Char.ofNat b.toNat)
  else
    match lead? b with
    | none => .stray b
    | some l =>
      if l.matched rest = l.extra then .char (Char.ofNat (l.value (rest.take l.extra)))
      else .stray b

/-- Reads letters after passing over `skip` bytes; `done` holds the letters read, last first. -/
def decodeFrom : (skip : Nat) → (done : List Letter) → Bytes → List Letter
  | _, done, [] => done.reverse
  | skip + 1, done, _ :: rest => decodeFrom skip done rest
  | 0, done, b :: rest =>
    let letter := Letter.read b rest
    decodeFrom (letter.size - 1) (letter :: done) rest

/-- The letters of a byte text. -/
def decode (text : Bytes) : List Letter := decodeFrom 0 [] text

/-- The UTF-8 encoding of a sequence of characters. -/
def encode (chars : List Char) : Bytes := chars.flatMap String.utf8EncodeChar

/-- The number of letters in a text. -/
def count (text : Bytes) : Nat := (decode text).length

/-- The characters of a text, with a replacement character for each stray byte. -/
def chars (text : Bytes) : List Char := (decode text).map Letter.toChar

/-- Whether a text has no stray byte. -/
def isValid (text : Bytes) : Bool :=
  (decode text).all fun
    | .char _ => true
    | .stray _ => false

/-! ## Mending -/

/-- The replacement character in UTF-8. -/
def replacement : Bytes := [0xEF, 0xBF, 0xBD]

/-- Mends a text after passing over `skip` bytes; `done` holds the bytes written, last first. With
`cut`, a lead byte that promises more bytes than are left ends the text. -/
def mendFrom (cut : Bool) : (skip : Nat) → (done : Bytes) → Bytes → Bytes
  | _, done, [] => done.reverse
  | skip + 1, done, _ :: rest => mendFrom cut skip done rest
  | 0, done, b :: rest =>
    if b < 0x80 then mendFrom cut 0 (b :: done) rest
    else
      match lead? b with
      | none => mendFrom cut 0 (replacement.reverse ++ done) rest
      | some l =>
        if cut && (rest.take l.extra).length < l.extra then done.reverse
        else if l.matched rest = l.extra then
          mendFrom cut l.extra ((b :: rest.take l.extra).reverse ++ done) rest
        else mendFrom cut (l.matched rest) (replacement.reverse ++ done) rest

/-- The text with each longest broken form replaced by one replacement character. When the text is
the part that could be read before a failure (`cut`), a form that would reach past its end is left
out with all that follows its lead byte. -/
def mend (cut : Bool) (text : Bytes) : Bytes := mendFrom cut 0 [] text

end Utf8

/-! ## White space -/

namespace Text

/-- The characters that separate fields: the white space characters of Unicode. -/
def isBlank (c : Char) : Bool :=
  let n := c.toNat
  (0x09 ≤ n && n ≤ 0x0D) || n == 0x20 || n == 0x85 || n == 0xA0 || n == 0x1680 ||
    (0x2000 ≤ n && n ≤ 0x200A) || n == 0x2028 || n == 0x2029 || n == 0x202F || n == 0x205F ||
    n == 0x3000

/-- Whether a letter is a white space character. -/
def isBlankLetter : Utf8.Letter → Bool
  | .char c => isBlank c
  | .stray _ => false

/-- The text without leading and trailing white space. -/
def trim (text : Bytes) : Bytes :=
  let front := (Utf8.decode text).dropWhile isBlankLetter
  (front.reverse.dropWhile isBlankLetter).reverse.flatMap Utf8.Letter.bytes

end Text

end LogicMill
