import LogicMill.Toml.Quotation
import LogicMill.Toml.Scalar

/-! # TOML as statements

* `Path`: the names of a key, from the outside in.
* `Expr`: the value of a key as it is written.
* `Statement`: a table head, the head of one more table in an array, or a key with its value.
* `statements?`: the statements of a text, if it is well formed.
-/

namespace LogicMill.Toml
set_option autoImplicit false

/-- The names of a key, from the outside in. -/
abbrev Path := List Bytes

/-- A value as it is written. -/
inductive Expr where
  | scalar (s : Scalar)
  | array (items : List Expr)
  | inline (pairs : List (Path × Expr))

/-- One statement of a text. -/
inductive Statement where
  | table (path : Path)
  | tables (path : Path)
  | entry (path : Path) (value : Expr)

/-! ## Characters -/

/-- A text without its byte order mark. -/
def dropMark : Bytes → Bytes
  | 0xFF :: 0xFE :: rest => rest
  | 0xFE :: 0xFF :: rest => rest
  | 0xEF :: 0xBB :: 0xBF :: rest => rest
  | text => text

/-- Whether a character that is followed by `next?` may stand in a text. Of the control characters
only tabs and line ends may. -/
def isAllowed (c : Char) (next? : Option Char) : Bool :=
  if c = '\r' then next? == some '\n'
  else c == '\t' || c == '\n' || (0x20 ≤ c.toNat && c.toNat != 0x7F)

def allAllowed : List Char → Bool
  | [] => true
  | c :: rest => isAllowed c rest.head? && allAllowed rest

/-- The characters of a text, if it is valid UTF-8 and all of them may stand in it. -/
def chars? (text : Bytes) : Option (List Char) :=
  let text := dropMark text
  if Utf8.isValid text && allAllowed (Utf8.chars text) then some (Utf8.chars text) else none

/-- A character that separates the parts of a line. -/
def isGap (c : Char) : Bool := c == ' ' || c == '\t'

def dropGap (text : List Char) : List Char := text.dropWhile isGap

/-- The rest of a line is left out. -/
def dropComment (text : List Char) : List Char := text.dropWhile fun c => !isLineEnd c

/-- The text after white space, line ends and comments; `fuel` bounds the number of comments. -/
def dropSpace : (fuel : Nat) → List Char → List Char
  | 0, text => text
  | fuel + 1, text =>
    match text.dropWhile isSpace with
    | '#' :: rest => dropSpace fuel (dropComment rest)
    | rest => rest

/-! ## Keys -/

/-- A character of a name that is not quoted. -/
def isNameChar (c : Char) : Bool :=
  ('a' ≤ c && c ≤ 'z') || ('A' ≤ c && c ≤ 'Z') || c.isDigit || c == '_' || c == '-'

/-- One name and the text after it. -/
def name? (text : List Char) : Option (Bytes × List Char) :=
  match text with
  | '"' :: rest => (basic rest).map fun (name, rest) => (Utf8.encode name, rest)
  | '\'' :: rest => (literal rest).map fun (name, rest) => (Utf8.encode name, rest)
  | text =>
    let (name, rest) := text.span isNameChar
    if name = [] then none else some (Utf8.encode name, rest)

/-- The names of a key, with dots between them, and the text after them; `fuel` bounds their number. -/
def path? : (fuel : Nat) → List Char → Option (Path × List Char)
  | 0, _ => none
  | fuel + 1, text => do
    let (name, rest) ← name? (dropGap text)
    match dropGap rest with
    | '.' :: rest =>
      let (path, rest) ← path? fuel rest
      some (name :: path, rest)
    | rest => some ([name], rest)

/-! ## Values -/

/-- The quoted text at the front of a text. -/
def quoted? : List Char → Option (Scalar × List Char)
  | '"' :: '"' :: '"' :: rest => (basicLines rest).map content
  | '\'' :: '\'' :: '\'' :: rest => (literalLines rest).map content
  | '"' :: rest => (basic rest).map content
  | '\'' :: rest => (literal rest).map content
  | _ => none
where
  content (p : List Char × List Char) : Scalar × List Char := (.text (Utf8.encode p.1), p.2)

/-- The value without parts at the front of a text. -/
def scalar? (text : List Char) : Option (Scalar × List Char) :=
  match text with
  | 't' :: 'r' :: 'u' :: 'e' :: rest => some (.truth true, rest)
  | 'f' :: 'a' :: 'l' :: 's' :: 'e' :: rest => some (.truth false, rest)
  | '"' :: _ => quoted? text
  | '\'' :: _ => quoted? text
  | _ => number? text

mutual

/-- The value at the front of a text. In this and the next two functions `fuel` bounds the number of
steps; twice the number of characters is enough, as of two steps at least one takes a character. -/
def expr? : (fuel : Nat) → List Char → Option (Expr × List Char)
  | 0, _ => none
  | fuel + 1, text =>
    match dropGap text with
    | '[' :: rest => items? fuel [] rest
    | '{' :: rest =>
      match dropGap rest with
      | '}' :: rest => some (.inline [], rest)
      | rest => pairs? fuel [] rest
    | rest => (scalar? rest).map fun (s, rest) => (.scalar s, rest)

/-- The items of an array, after those in `done`, up to its end. A comma may follow the last one. -/
def items? : (fuel : Nat) → (done : List Expr) → List Char → Option (Expr × List Char)
  | 0, _, _ => none
  | fuel + 1, done, text =>
    match dropSpace fuel text with
    | ']' :: rest => some (.array done.reverse, rest)
    | rest =>
      match expr? fuel rest with
      | none => none
      | some (item, rest) =>
        match dropSpace fuel rest with
        | ',' :: rest => items? fuel (item :: done) rest
        | ']' :: rest => some (.array (item :: done).reverse, rest)
        | _ => none

/-- The pairs of an inline table, after those in `done`, up to its end. -/
def pairs? : (fuel : Nat) → (done : List (Path × Expr)) → List Char → Option (Expr × List Char)
  | 0, _, _ => none
  | fuel + 1, done, text =>
    match path? fuel text with
    | some (path, '=' :: rest) =>
      match expr? fuel rest with
      | none => none
      | some (value, rest) =>
        match dropGap rest with
        | ',' :: rest => pairs? fuel ((path, value) :: done) rest
        | '}' :: rest => some (.inline ((path, value) :: done).reverse, rest)
        | _ => none
    | _ => none

end

/-! ## Statements -/

/-- The text after the end of a line, which may have a comment on it. -/
def lineEnd? (text : List Char) : Option (List Char) :=
  match dropGap text with
  | [] => some []
  | '#' :: rest => some (dropComment rest)
  | c :: rest => if isLineEnd c then some rest else none

/-- The statement at the front of a text, without the end of its line; `fuel` is as for `expr?`. -/
def statement? (fuel : Nat) (text : List Char) : Option (Statement × List Char) :=
  match text with
  | '[' :: '[' :: rest =>
    match path? fuel rest with
    | some (path, ']' :: ']' :: rest) => some (.tables path, rest)
    | _ => none
  | '[' :: rest =>
    match path? fuel rest with
    | some (path, ']' :: rest) => some (.table path, rest)
    | _ => none
  | text =>
    match path? fuel text with
    | some (path, '=' :: rest) => (expr? fuel rest).map fun (value, rest) => (.entry path value, rest)
    | _ => none

/-- The statements of a text after those in `done`; `fuel` bounds their number and is enough for each
of them. -/
def statementsFrom? : (fuel : Nat) → (done : List Statement) → List Char → Option (List Statement)
  | 0, _, _ => none
  | fuel + 1, done, text =>
    match dropSpace fuel text with
    | [] => some done.reverse
    | text =>
      match statement? fuel text with
      | none => none
      | some (s, rest) =>
        match lineEnd? rest with
        | none => none
        | some rest => statementsFrom? fuel (s :: done) rest

/-- The statements of a text. A text that is not well formed has none, and is refused. -/
def statements? (text : Bytes) : Option (List Statement) :=
  match chars? text with
  | none => none
  | some chars => statementsFrom? (2 * chars.length + 2) [] chars

end LogicMill.Toml
