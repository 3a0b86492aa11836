import LogicMill.Text.Numeral
import LogicMill.Text.Quoted

/-! # Log levels

* `Log.Level`: how urgent a record is, and the least urgency that a log takes.
* `Log.Level.read`: a level given by name, with an offset if one is wanted.
* `Log.LevelError`: what is wrong with a text that names no level.
-/

namespace LogicMill.Log
set_option autoImplicit false

/-- A degree of urgency. -/
structure Level where
  value : Int
deriving Repr, DecidableEq

namespace Level

def debug : Level := ⟨-4⟩

def info : Level := ⟨0⟩

def warn : Level := ⟨4⟩

def error : Level := ⟨8⟩

/-- Whether a log that takes records from `threshold` on takes one of this level. -/
def passes (level threshold : Level) : Bool := threshold.value ≤ level.value

/-- The name of the level that a value belongs to. -/
def text (level : Level) : Bytes :=
  if level = debug then utf8 "DEBUG"
  else if level = info then utf8 "INFO"
  else if level = warn then utf8 "WARN"
  else utf8 "ERROR"

end Level

/-- Why a text names no level. -/
inductive LevelError where
  | unknownName
  | badOffset (offset : Bytes) (refusal : Numeral.Refusal)
deriving Repr, DecidableEq

def LevelError.text : LevelError → Bytes
  | .unknownName => utf8 "unknown name"
  | .badOffset offset refusal =>
    utf8 "strconv.Atoi: parsing " ++ Text.quote offset ++ utf8 ": " ++ refusal.text

/-- The error of a level text. -/
def LevelError.message (name : Bytes) (e : LevelError) : Bytes :=
  utf8 "slog: level string " ++ Text.quote name ++ utf8 ": " ++ e.text

namespace Level

/-- A letter of a level name in upper case. Besides the letters from a to z, the dotless i is the
only one whose upper case is a letter from A to Z that occurs in a level name. -/
def upper (c : Char) : Char := if c = 'ı' then 'I' else c.toUpper

/-- The level of a name, in whatever case it is written. -/
def named? (name : Bytes) : Option Level :=
  let capitals := (Utf8.chars name).map upper
  if capitals = "DEBUG".toList then some debug
  else if capitals = "INFO".toList then some info
  else if capitals = "WARN".toList then some warn
  else if capitals = "ERROR".toList then some error
  else none

/-- The level raised by an offset, in 64-bit arithmetic. -/
def raise (level : Level) (offset : Int) : Level := ⟨(level.value + offset).bmod (Nat.pow 2 64)⟩

/-- The level that a text stands for: a name, and from the first sign on an offset. -/
def read (text : Bytes) : Except LevelError Level :=
  let (name, offset) := text.span fun b => b != 0x2B && b != 0x2D
  let offset := if offset = [] then .ok 0 else
    (Numeral.decimal offset).mapError (LevelError.badOffset offset)
  match offset with
  | .error e => .error e
  | .ok offset =>
    match named? name with
    | none => .error .unknownName
    | some level => .ok (level.raise offset)

end Level

end LogicMill.Log
