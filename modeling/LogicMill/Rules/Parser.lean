import LogicMill.Instruction
import LogicMill.Rules.Report
import LogicMill.StateTable
import LogicMill.Text.Utf8

/-! # Reading rules

A rule is written as five fields with white space between them: a state, a symbol, a state, a symbol
and a move. Line ends count as white space before the move; after it only a comment may stand on the
line. A comment begins with two slashes, where a rule could begin or after a move, and runs to the
end of its line.

* `Token`: the characters of a field so far, and where it begins.
* `Stage`: how much of a rule has been read.
* `Fault`: what can be wrong with a rule text.
* `Stage.next`: what one more character does.
* `Stage.close`: what the end of the text means.
* `Parser.next`: reads one rule. After a fault, reading goes on behind the letter that showed it.
-/

namespace LogicMill.Rules
set_option autoImplicit false

/-! ## Faults -/

/-- What can be wrong with a rule text. -/
inductive Fault where
  /-- A byte that is part of no character. -/
  | illegalEncoding
  /-- A state name that the table refuses. -/
  | refusedState (name : Bytes) (cause : InternError)
  /-- A state or move field that goes on after `maxNameLength` characters. -/
  | fieldTooLong (token : Bytes)
  /-- A symbol field of more than one character. -/
  | symbolTooLong (token : Bytes)
  | badMove (token : Bytes)
  | unexpected (token : Bytes)
  /-- The text ends inside a rule. -/
  | missingToken
  | tooManyRules
deriving Repr, DecidableEq

namespace Fault

def capacity? : Fault → Option Capacity
  | .refusedState _ cause => cause.capacity?
  | .fieldTooLong _ => some .nameLength
  | .tooManyRules => some .instructions
  | _ => none

def message : Fault → Bytes
  | .illegalEncoding => utf8 "illegal UTF-8 encoding"
  | .refusedState name cause => utf8 "state " ++ name ++ utf8 ": " ++ cause.message
  | .fieldTooLong token =>
    utf8 "symbol is too long: " ++ token ++ utf8 ": " ++ Capacity.nameLength.message
  | .symbolTooLong token => utf8 "symbol is too long: " ++ token
  | .badMove token => utf8 "invalid move instruction " ++ token
  | .unexpected token => utf8 "unexpected token: " ++ token
  | .missingToken => utf8 "expecting a token"
  | .tooManyRules => Capacity.instructions.message

end Fault

instance : Explained Fault where
  message := Fault.message
  capacity? := Fault.capacity?

/-! ## Stages -/

/-- The characters of a field so far, and the place of the first of them. -/
structure Token where
  chars : List Char
  start : Position
deriving Repr, DecidableEq

namespace Token

/-- A token with one more character. -/
def push (t : Token) (c : Char) : Token := { t with chars := t.chars ++ [c] }

def text (t : Token) : Bytes := Utf8.encode t.chars

/-- The move that a token names. -/
def move? (chars : List Char) : Option Move :=
  if chars = ['L'] then some .left else if chars = ['R'] then some .right else none

/-- The characters before two slashes at the end, if there are any such characters. -/
def beforeComment? (chars : List Char) : Option (List Char) :=
  match chars.reverse with
  | '/' :: '/' :: c :: rest => some (c :: rest).reverse
  | _ => none

end Token

/-- The symbol that a character in a rule stands for: an underscore is the blank. -/
def ruleSymbol (c : Char) : Symbol := if c = '_' then .blank else .ofChar c

/-- The first four fields of a rule. -/
structure Fields where
  source : Nat
  read : Symbol
  target : Nat
  write : Symbol
deriving Repr, DecidableEq

/-- The rule with the given fields. -/
def Fields.rule (f : Fields) (m : Move) : Instruction := ⟨f.source, f.read, f.target, f.write, m⟩

/-- How much of a rule has been read: between which fields, or in which field, the reader is. -/
inductive Stage where
  | beforeSource
  | inSource (token : Token)
  | beforeRead (source : Nat)
  | inRead (source : Nat) (c : Char) (start : Position)
  | beforeTarget (source : Nat) (read : Symbol)
  | inTarget (source : Nat) (read : Symbol) (token : Token)
  | beforeWrite (source : Nat) (read : Symbol) (target : Nat)
  | inWrite (source : Nat) (read : Symbol) (target : Nat) (c : Char) (start : Position)
  | beforeMove (fields : Fields)
  | inMove (fields : Fields) (token : Token)
  /-- The rule is complete; its line may only end, or go on with a comment. -/
  | afterMove (rule : Instruction)
  /-- A single slash after a complete rule. -/
  | afterSlash (rule : Instruction) (start : Position)
  /-- A comment after a complete rule. -/
  | inRemark (rule : Instruction)
  /-- A comment where a rule could begin. -/
  | inComment
deriving Repr, DecidableEq

/-- What one character does: the reader goes on, or a rule is complete, or there is a fault. -/
inductive Step where
  | more (stage : Stage) (table : StateTable)
  | rule (rule : Instruction)
  | fault (pos : Position) (fault : Fault)

/-- Ends a state field: the name gets a number, and `resume` is the stage that follows. -/
def internToken (table : StateTable) (token : Token) (resume : Nat → Stage) : Step :=
  match table.intern token.text with
  | .ok (id, table) => .more (resume id) table
  | .error e => .fault token.start (.refusedState token.text e)

/-- What the character `c` at `pos` does. -/
def Stage.next (table : StateTable) (pos : Position) (c : Char) : Stage → Step
  | .beforeSource =>
    if Text.isBlank c then .more .beforeSource table else .more (.inSource ⟨[c], pos⟩) table
  | .inSource token =>
    if Text.isBlank c then internToken table token .beforeRead
    else if maxNameLength ≤ token.chars.length then .fault token.start (.fieldTooLong token.text)
    else if token.chars = ['/'] ∧ c = '/' then .more .inComment table
    else .more (.inSource (token.push c)) table
  | .beforeRead source =>
    if Text.isBlank c then .more (.beforeRead source) table
    else .more (.inRead source c pos) table
  | .inRead source first start =>
    if Text.isBlank c then .more (.beforeTarget source (ruleSymbol first)) table
    else .fault start (.symbolTooLong (Utf8.encode [first, c]))
  | .beforeTarget source read =>
    if Text.isBlank c then .more (.beforeTarget source read) table
    else .more (.inTarget source read ⟨[c], pos⟩) table
  | .inTarget source read token =>
    if Text.isBlank c then internToken table token (.beforeWrite source read)
    else if maxNameLength ≤ token.chars.length then .fault token.start (.fieldTooLong token.text)
    else .more (.inTarget source read (token.push c)) table
  | .beforeWrite source read target =>
    if Text.isBlank c then .more (.beforeWrite source read target) table
    else .more (.inWrite source read target c pos) table
  | .inWrite source read target first start =>
    if Text.isBlank c then .more (.beforeMove ⟨source, read, target, ruleSymbol first⟩) table
    else .fault start (.symbolTooLong (Utf8.encode [first, c]))
  | .beforeMove fields =>
    if Text.isBlank c then .more (.beforeMove fields) table
    else .more (.inMove fields ⟨[c], pos⟩) table
  | .inMove fields token =>
    if Text.isBlank c then
      match Token.move? token.chars with
      | none => .fault token.start (.badMove token.text)
      | some m => if c = '\n' then .rule (fields.rule m) else .more (.afterMove (fields.rule m)) table
    else if maxNameLength ≤ token.chars.length then .fault token.start (.fieldTooLong token.text)
    else
      match Token.beforeComment? (token.push c).chars with
      | none => .more (.inMove fields (token.push c)) table
      | some chars =>
        match Token.move? chars with
        | none => .fault token.start (.badMove (Utf8.encode chars))
        | some m => .more (.inRemark (fields.rule m)) table
  | .afterMove rule =>
    if c = '\n' then .rule rule
    else if c = '/' then .more (.afterSlash rule pos) table
    else if Text.isBlank c then .more (.afterMove rule) table
    else .fault pos (.unexpected (Utf8.encode [c]))
  | .afterSlash rule start =>
    if c = '/' then .more (.inRemark rule) table
    else .fault start (.unexpected (Utf8.encode ['/', c]))
  | .inRemark rule => if c = '\n' then .rule rule else .more (.inRemark rule) table
  | .inComment => if c = '\n' then .more .beforeSource table else .more .inComment table

/-! ## Parsers -/

/-- What reading one rule gives. -/
inductive Item where
  | rule (rule : Instruction)
  | fault (e : Located Fault)
  /-- The text could not be read on. -/
  | readFailed (cause : Bytes)
  /-- The text ends on a blank or comment line. -/
  | done
deriving Repr, DecidableEq

/-- What the end of the text at `pos` means. -/
def Stage.close (pos : Position) : Stage → Item
  | .beforeSource | .inComment => .done
  | .inMove fields token =>
    match Token.move? token.chars with
    | some m => .rule (fields.rule m)
    | none => .fault ⟨token.start, .badMove token.text⟩
  | .afterSlash _ start => .fault ⟨start, .unexpected (Utf8.encode ['/'])⟩
  | .afterMove rule | .inRemark rule => .rule rule
  | _ => .fault ⟨pos, .missingToken⟩

/-- A reader of rules: the letters that are left, what ends them, the places of the last letter and
of the next one, and the table of state names. -/
structure Parser where
  rest : List Utf8.Letter
  /-- Why the text cannot be read beyond `rest`; `none` if it ends there. -/
  failure : Option Bytes
  last : Position
  pos : Position
  table : StateTable

namespace Parser

/-- A reader at the start of a text. -/
def start (file : Bytes) (text : Bytes) (failure : Option Bytes) (table : StateTable) : Parser where
  rest := Utf8.decode text
  failure
  last := .start file
  pos := .start file
  table

/-- Reads on from a stage to the end of the rule. -/
def scan (failure : Option Bytes) :
    Stage → StateTable → (last pos : Position) → List Utf8.Letter → Item × Parser
  | stage, table, last, pos, [] =>
    match failure with
    | some cause => (.readFailed cause, ⟨[], failure, last, pos, table⟩)
    | none => (stage.close pos, ⟨[], failure, pos, pos, table⟩)
  | stage, table, _, pos, letter :: rest =>
    let after := pos.after letter
    match letter with
    | .stray _ => (.fault ⟨pos, .illegalEncoding⟩, ⟨rest, failure, pos, after, table⟩)
    | .char c =>
      match stage.next table pos c with
      | .more stage table => scan failure stage table pos after rest
      | .rule rule => (.rule rule, ⟨rest, failure, pos, after, table⟩)
      | .fault place fault => (.fault ⟨place, fault⟩, ⟨rest, failure, pos, after, table⟩)

/-- Reads the next rule. -/
def next (p : Parser) : Item × Parser := scan p.failure .beforeSource p.table p.last p.pos p.rest

/-- The next items, at most `limit`, up to the first after which nothing can be read. -/
def items : (limit : Nat) → Parser → Array Item → Array Item × Parser
  | 0, p, found => (found, p)
  | limit + 1, p, found =>
    let (item, p) := p.next
    match item with
    | .rule _ | .fault _ => items limit p (found.push item)
    | .readFailed _ | .done => (found.push item, p)

end Parser

end LogicMill.Rules
