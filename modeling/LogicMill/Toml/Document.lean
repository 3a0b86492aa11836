import LogicMill.Toml.Statement
import Std.Data.TreeMap
import Std.Data.TreeSet

/-! # TOML documents

A document is a store of numbered tables. Tables come to be by being opened, by being named on the
way to another table or key, or inline. The entries of an inline table are defined in the document
like others, and are gathered in a table of their own as well, which is the value: where a key already
leads to a table, that one stays, and where it leads to an array, the value takes its place.

* `Slot`: what is at a name of a table. Of an array of tables only the last table is kept, as only
  that one can still be added to.
* `Document`: the tables, those that were only implied so far, and the keys in the order in which they
  were written.
* `Document.openTable`, `Document.addTable`, `Document.define`: the effect of each statement.
* `Document.ofText?`: the document that a text describes, if there is one.
* `Path.text`: a key in writing.
-/

namespace LogicMill.Toml
set_option autoImplicit false

/-- What is at a name. Tables are told by their numbers. -/
inductive Slot where
  | scalar (s : Scalar)
  | array
  | table (number : Nat)
  | tables (last : Nat)
deriving Repr, DecidableEq

/-- The table in which the keys below a name are defined. -/
def Slot.table? : Slot → Option Nat
  | .table number => some number
  | .tables last => some last
  | _ => none

/-- What a text has said up to some point. -/
structure Document where
  /-- The entries of each table. Table zero is the outermost. -/
  tables : Array (Std.TreeMap Bytes Slot) := #[∅]
  /-- Tables that were named on the way to others, but not opened. -/
  implied : Std.TreeSet Path := ∅
  /-- The paths whose value was last written as an array. -/
  arrays : Std.TreeSet Path := ∅
  /-- The keys and tables written so far, the last one first. -/
  written : List Path := []

namespace Document

/-! ## Tables -/

/-- The entries of a table, by name. -/
def entries (d : Document) (table : Nat) : Std.TreeMap Bytes Slot := d.tables[table]?.getD ∅

/-- What is at a name of a table. -/
def find? (d : Document) (table : Nat) (name : Bytes) : Option Slot := (d.entries table)[name]?

/-- The document with something new at a name of a table. -/
def put (d : Document) (table : Nat) (name : Bytes) (slot : Slot) : Document :=
  { d with tables := d.tables.modify table fun entries => entries.insert name slot }

/-- The number of a new table without entries, and the document with it. -/
def create (d : Document) : Nat × Document :=
  (d.tables.size, { d with tables := d.tables.push ∅ })

/-- The table that a path leads to. -/
def tableAt? (d : Document) (path : Path) : Option Nat :=
  path.foldlM (fun table name => (d.find? table name).bind Slot.table?) 0

/-! ## Marks -/

/-- Notes that a table was only implied. -/
def imply (d : Document) (path : Path) : Document := { d with implied := d.implied.insert path }

/-- Notes that a table was more than implied. -/
def forget (d : Document) (path : Path) : Document := { d with implied := d.implied.erase path }

/-- Notes whether the value of a key was written as an array. For a key with an empty name this is
noted at its table. -/
def note (d : Document) (context : Path) (name : Bytes) (isArray : Bool) : Document :=
  let path := if name = [] then context else context ++ [name]
  let path := if path = [] then [[]] else path
  { d with arrays := if isArray then d.arrays.insert path else d.arrays.erase path }

/-- Notes that a key or table was written. -/
def write (d : Document) (path : Path) : Document := { d with written := path :: d.written }

/-! ## Definitions -/

/-- Sets what is at a name in a table. A name that is taken is refused, unless its value was an array,
which is replaced, or it is a table that was only implied, which stays. -/
def assign (d : Document) (context : Path) (name : Bytes) (slot : Slot) : Option Document :=
  let path := context ++ [name]
  match d.tableAt? context with
  | none => none
  | some table =>
    if (d.find? table name).isNone then some (d.put table name slot)
    else if d.arrays.contains path then some ((d.put table name slot).forget path)
    else if d.implied.contains path then some (d.forget path)
    else none

/-- The document after the value of a name was read, as an array or not. -/
def settle (d : Document) (context : Path) (name : Bytes) (slot : Slot) : Option Document :=
  (d.assign context name slot).map fun d => d.note context name (slot == .array)

/-- Goes on from the table at `passed`. Where nothing is, a table is made, which then is implied. -/
def reachFrom (d : Document) (passed : Path) (table : Nat) : Path → Option (Document × Nat)
  | [] => some (d, table)
  | name :: rest =>
    let passed := passed ++ [name]
    match d.find? table name with
    | none =>
      let (made, d) := d.create
      reachFrom ((d.put table name (.table made)).imply passed) passed made rest
    | some slot =>
      match slot.table? with
      | none => none
      | some next => reachFrom d passed next rest

/-- Goes to the table at a path. -/
def reach (d : Document) (path : Path) : Option (Document × Nat) := d.reachFrom [] 0 path

/-- Opens the table at a path. -/
def openTable (d : Document) (path : Path) : Option Document :=
  match d.reach path.dropLast, path.getLast? with
  | some (d, _), some name =>
    let (made, d) := d.create
    d.assign path.dropLast name (.table made)
  | _, _ => none

/-- Adds a table to the array of tables at a path. -/
def addTable (d : Document) (path : Path) : Option Document :=
  match d.reach path.dropLast, path.getLast? with
  | some (d, table), some name =>
    let (made, d) := d.create
    match d.find? table name with
    | none => some (d.put table name (.tables made))
    | some (.tables _) => some (d.put table name (.tables made))
    | some _ => none
  | _, _ => none

/-- Opens the tables on the way to a key one inside the other, each of which counts as implied. -/
def openWay (d : Document) (context : Path) : (way : Path) → Option Document
  | [] => some d
  | name :: rest =>
    let path := context ++ [name]
    match (d.imply path).openTable path with
    | none => none
    | some d => openWay d path rest

/-- Sets what is at a key below the table of an inline value. The way leads over tables only, which
are made where nothing is. -/
def gather (d : Document) (table : Nat) (name : Bytes) (slot : Slot) : (way : Path) → Option Document
  | [] => some (d.put table name slot)
  | next :: rest =>
    match d.find? table next with
    | none =>
      let (made, d) := d.create
      gather (d.put table next (.table made)) made name slot rest
    | some (.table number) => gather d number name slot rest
    | some _ => none

mutual

/-- The document after the value of a name in the table `context`, and what then is to stand at the
name. The value may be an item of an array. -/
def evaluate (context : Path) (name : Bytes) (isItem : Bool) :
    Expr → Document → Option (Document × Slot)
  | .scalar s, d => some (d, .scalar s)
  | .array items, d =>
    (evaluateItems context name items (d.note context name true)).map fun d => (d, .array)
  | .inline pairs, d =>
    let path := context ++ [name]
    let (own, d) := d.create
    let d := d.imply path
    match if isItem then d.addTable path else d.openTable path with
    | none => none
    | some d => (definePairs path own pairs d).map fun d => (d, .table own)

/-- The document after the items of an array. -/
def evaluateItems (context : Path) (name : Bytes) : List Expr → Document → Option Document
  | [], d => some d
  | item :: rest, d =>
    match evaluate context name true item d with
    | none => none
    | some (d, _) => evaluateItems context name rest d

/-- The document after the pairs of an inline table that is at `context`; they are also gathered in
the table `own`. -/
def definePairs (context : Path) (own : Nat) : List (Path × Expr) → Document → Option Document
  | [], d => some d
  | (path, value) :: rest, d =>
    let way := path.dropLast
    let name := path.getLast?.getD []
    match d.openWay context way with
    | none => none
    | some d =>
      match evaluate (context ++ way) name false value (d.write (context ++ path)) with
      | none => none
      | some (d, slot) =>
        match d.settle (context ++ way) name slot with
        | none => none
        | some d =>
          match d.gather own name slot way with
          | none => none
          | some d => definePairs context own rest d

end

/-- Defines a key in the table `context`. -/
def define (d : Document) (context : Path) (path : Path) (value : Expr) : Option Document :=
  let way := path.dropLast
  let name := path.getLast?.getD []
  match d.openWay context way with
  | none => none
  | some d =>
    match evaluate (context ++ way) name false value (d.write (context ++ path)) with
    | none => none
    | some (d, slot) => d.settle (context ++ way) name slot

/-- The document after statements, the first of which is in the table `context`. -/
def follow (context : Path) : List Statement → Document → Option Document
  | [], d => some d
  | .table path :: rest, d =>
    match d.openTable path with
    | none => none
    | some d => follow path rest ((d.note path [] false).write path)
  | .tables path :: rest, d =>
    match d.addTable path with
    | none => none
    | some d => follow path rest ((d.note path [] false).write path)
  | .entry path value :: rest, d =>
    match d.define context path value with
    | none => none
    | some d => follow context rest d

/-- The document that a text describes. -/
def ofText? (text : Bytes) : Option Document :=
  match statements? text with
  | none => none
  | some statements => follow [] statements {}

/-- The keys and tables in the order in which they were written. -/
def keys (d : Document) : List Path := d.written.reverse

end Document

/-! ## Keys in writing -/

/-- A character of a quoted name. -/
def nameChar (c : Char) : Bytes :=
  if c = '"' ∨ c = '\\' then utf8 "\\" ++ String.utf8EncodeChar c
  else if c = '\x08' then utf8 "\\b"
  else if c = '\t' then utf8 "\\t"
  else if c = '\n' then utf8 "\\n"
  else if c = '\x0c' then utf8 "\\f"
  else if c = '\r' then utf8 "\\r"
  else if c.toNat < 0x20 ∨ c.toNat = 0x7F then utf8 "\\u" ++ Bytes.hex 4 c.toNat
  else String.utf8EncodeChar c

/-- A name, quoted if it is empty or has a character that asks for it. -/
def nameText (name : Bytes) : Bytes :=
  let chars := Utf8.chars name
  if chars ≠ [] ∧ chars.all isNameChar then name
  else utf8 "\"" ++ chars.flatMap nameChar ++ utf8 "\""

/-- A key in writing. -/
def Path.text (path : Path) : Bytes := Bytes.join (utf8 ".") (path.map nameText)

end LogicMill.Toml
