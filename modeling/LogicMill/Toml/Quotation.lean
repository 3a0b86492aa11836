import LogicMill.Text.Utf8

/-! # Quoted texts in TOML

Each function reads what follows an opening quotation mark and gives the text meant and the text
after the closing mark.

* `basic`: between quotation marks, with escapes, on one line.
* `literal`: between apostrophes, as it stands, on one line.
* `basicLines`, `literalLines`: the same between three marks, over any number of lines.
-/

namespace LogicMill.Toml
set_option autoImplicit false

/-- The value of a digit in base sixteen. -/
def hexValue? (c : Char) : Option Nat :=
  if c.isDigit then some (c.toNat - 0x30)
  else if 'a' ≤ c && c ≤ 'f' then some (c.toNat - 0x61 + 10)
  else if 'A' ≤ c && c ≤ 'F' then some (c.toNat - 0x41 + 10)
  else none

/-- The character with a number in base sixteen. -/
def scalarValue? (digits : List Char) : Option Char := do
  let n ← digits.foldlM (fun n c => (hexValue? c).map (n * 16 + ·)) 0
  if n.isValidChar then some (Char.ofNat n) else none

/-- The character that a letter stands for after a backslash. -/
def escaped? : Char → Option Char
  | 'b' => some '\x08'
  | 't' => some '\t'
  | 'n' => some '\n'
  | 'f' => some '\x0c'
  | 'r' => some '\r'
  | '"' => some '"'
  | '\\' => some '\\'
  | _ => none

def isLineEnd (c : Char) : Bool := c == '\n' || c == '\r'

/-- Text with escapes up to a quotation mark; `done` is what was read before, last first. -/
def basicFrom : (done : List Char) → List Char → Option (List Char × List Char)
  | _, [] => none
  | done, '"' :: rest => some (done.reverse, rest)
  | done, '\\' :: 'u' :: a :: b :: c :: d :: rest =>
    match scalarValue? [a, b, c, d] with
    | some x => basicFrom (x :: done) rest
    | none => none
  | done, '\\' :: 'U' :: a :: b :: c :: d :: e :: f :: g :: h :: rest =>
    match scalarValue? [a, b, c, d, e, f, g, h] with
    | some x => basicFrom (x :: done) rest
    | none => none
  | done, '\\' :: c :: rest =>
    match escaped? c with
    | some x => basicFrom (x :: done) rest
    | none => none
  | done, c :: rest => if c = '\\' ∨ isLineEnd c then none else basicFrom (c :: done) rest

def basic (text : List Char) : Option (List Char × List Char) := basicFrom [] text

/-- Text as it stands up to an apostrophe on the same line. -/
def literal (text : List Char) : Option (List Char × List Char) :=
  match text.span fun c => c != '\'' && !isLineEnd c with
  | (content, '\'' :: rest) => some (content, rest)
  | _ => none

/-- The end of a text between three marks: up to `most` marks before the last three belong to the
text. The text given follows three marks. -/
def closing (mark : Char) (most : Nat) (done : List Char) (text : List Char) :
    Option (List Char × List Char) :=
  let (marks, rest) := text.span (· == mark)
  if marks.length ≤ most then some ((marks ++ done).reverse, rest) else none

def isSpace (c : Char) : Bool := c == ' ' || c == '\t' || c == '\n' || c == '\r'

/-- Text with escapes up to three quotation marks. A backslash at the end of a line removes the line
end and all white space around it. Directly after an escaped backslash, one more mark than elsewhere
may stand before the closing ones. -/
def basicLinesFrom (afterBackslash : Bool) (done : List Char) (text : List Char) :
    Option (List Char × List Char) :=
  match text with
  | [] => none
  | '"' :: '"' :: '"' :: rest => closing '"' (if afterBackslash then 3 else 2) done rest
  | '\\' :: 'u' :: a :: b :: c :: d :: rest =>
    match scalarValue? [a, b, c, d] with
    | some x => basicLinesFrom false (x :: done) rest
    | none => none
  | '\\' :: 'U' :: a :: b :: c :: d :: e :: f :: g :: h :: rest =>
    match scalarValue? [a, b, c, d, e, f, g, h] with
    | some x => basicLinesFrom false (x :: done) rest
    | none => none
  | '\\' :: c :: rest =>
    if isSpace c then
      have : (rest.dropWhile isSpace).length ≤ rest.length :=
        (List.dropWhile_sublist isSpace).length_le
      if (c :: rest.takeWhile isSpace).contains '\n' then
        basicLinesFrom false done (rest.dropWhile isSpace)
      else none
    else
      match escaped? c with
      | some x => basicLinesFrom (c == '\\') (x :: done) rest
      | none => none
  | c :: rest => if c = '\\' then none else basicLinesFrom false (c :: done) rest
termination_by text.length

/-- Text as it stands up to three apostrophes. -/
def literalLinesFrom : (done : List Char) → List Char → Option (List Char × List Char)
  | _, [] => none
  | done, '\'' :: '\'' :: '\'' :: rest => closing '\'' 2 done rest
  | done, c :: rest => literalLinesFrom (c :: done) rest

/-- A text without the line end at its front. -/
def dropLineEnd : List Char → List Char
  | '\n' :: rest => rest
  | '\r' :: '\n' :: rest => rest
  | text => text

def basicLines (text : List Char) : Option (List Char × List Char) :=
  basicLinesFrom false [] (dropLineEnd text)

def literalLines (text : List Char) : Option (List Char × List Char) :=
  literalLinesFrom [] (dropLineEnd text)

end LogicMill.Toml
