import LogicMill.Log.Level
import LogicMill.Text.Utf8

/-! # Log records

* `Log.Value`: a number, a truth value or a text.
* `Log.Record`: a title with named values, at a level.
* `Log.Record.line`: the record as a line of `name=value` pairs. A text is quoted where it could be
  misread.
* `Log.Record.json`: the record as a JSON object on a line.
-/

namespace LogicMill.Log
set_option autoImplicit false

/-- A value that is logged. -/
inductive Value where
  | text (text : Bytes)
  | number (n : Int)
  | truth (b : Bool)
deriving Repr, DecidableEq

/-- What is logged about one event. -/
structure Record where
  level : Level
  title : Bytes
  fields : List (Bytes × Value)
deriving Repr, DecidableEq

/-! ## Lines of pairs -/

/-- Whether a letter can be misread in a line of pairs: those that separate pairs, and those that
cannot be seen. -/
def isMisread : Utf8.Letter → Bool
  | .stray _ => true
  | .char c =>
    if c.toNat < 0x80 then c.toNat ≤ 0x20 || c == '=' || c == '"'
    else c == '\uFFFD' || Text.isBlank c || !Text.isPrintable c

/-- A text in a line of pairs, quoted if it is empty or has a letter that can be misread. -/
def pairText (text : Bytes) : Bytes :=
  if text = [] ∨ (Utf8.decode text).any isMisread then Text.quote text else text

def Value.plain : Value → Bytes
  | .text content => pairText content
  | .number n => Bytes.ofInt n
  | .truth b => Text.ofBool b

/-- A record as a line of pairs, its level and title first. -/
def Record.line (r : Record) : Bytes :=
  let pairs := (utf8 "level", Value.text r.level.text) :: (utf8 "msg", Value.text r.title) :: r.fields
  Bytes.join (utf8 " ") (pairs.map fun (name, value) => name ++ utf8 "=" ++ value.plain) ++ utf8 "\n"

/-! ## JSON -/

/-- A letter in a JSON string. A stray byte is written as the escape of the replacement character,
and so are two line ends that some readers do not allow in strings. -/
def jsonLetter : Utf8.Letter → Bytes
  | .stray _ => utf8 "\\ufffd"
  | .char c =>
    if c = '"' ∨ c = '\\' then utf8 "\\" ++ String.utf8EncodeChar c
    else if c = '\n' then utf8 "\\n"
    else if c = '\r' then utf8 "\\r"
    else if c = '\t' then utf8 "\\t"
    else if c.toNat < 0x20 ∨ c.toNat = 0x2028 ∨ c.toNat = 0x2029 then
      utf8 "\\u" ++ Bytes.hex 4 c.toNat
    else String.utf8EncodeChar c

def jsonText (text : Bytes) : Bytes :=
  utf8 "\"" ++ (Utf8.decode text).flatMap jsonLetter ++ utf8 "\""

def Value.json : Value → Bytes
  | .text content => jsonText content
  | .number n => Bytes.ofInt n
  | .truth b => Text.ofBool b

/-- A record as a JSON object on a line, its level and title first. -/
def Record.json (r : Record) : Bytes :=
  let pairs := (utf8 "level", Value.text r.level.text) :: (utf8 "msg", Value.text r.title) :: r.fields
  [0x7B] ++
    Bytes.join (utf8 ",") (pairs.map fun (name, value) => jsonText name ++ utf8 ":" ++ value.json) ++
    [0x7D, 0x0A]

end LogicMill.Log
