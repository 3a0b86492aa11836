import LogicMill.Text.Bytes

/-! # Files

A tree of directories and files with a working directory in it. A place in the tree is the list of
names on the way to it from the root.

* `Files`: the entries of the tree and the working directory.
* `FileError`: why a path cannot be opened.
* `Files.next`, `Files.enter`: where one name leads to.
* `Files.locate`: the place that a path leads to.
* `Files.openRead`, `Files.openWrite`: what is there.
* `Files.append`, `Files.overwrite`: changes to the content of a file.
* `Files.changes`: the files that differ from those of another tree.
-/

namespace LogicMill
set_option autoImplicit false

/-- What an entry is. -/
inductive Node where
  | directory
  | file (content : Bytes)
deriving Repr, DecidableEq

/-- Why a path cannot be opened. -/
inductive FileError where
  | notFound
  | isDirectory
  | notDirectory
  | badName
  | nameTooLong
deriving Repr, DecidableEq

def FileError.text : FileError → Bytes
  | .notFound => utf8 "no such file or directory"
  | .isDirectory => utf8 "is a directory"
  | .notDirectory => utf8 "not a directory"
  | .badName => utf8 "invalid argument"
  | .nameTooLong => utf8 "file name too long"

/-- What a failed attempt to open a path is called. -/
def FileError.message (path : Bytes) (e : FileError) : Bytes :=
  utf8 "open " ++ path ++ utf8 ": " ++ e.text

/-- The entries of a tree, each at its place, and the working directory. -/
structure Files where
  entries : List (List Bytes × Node) := []
  cwd : List Bytes := []
deriving Repr, DecidableEq

namespace Files

/-! ## Entries -/

/-- The entry at a place. The working directory and those around it are there. -/
def node? (f : Files) (place : List Bytes) : Option Node :=
  if place.isPrefixOf f.cwd then some .directory else f.entries.lookup place

/-- The tree with an entry set. -/
def set (f : Files) (place : List Bytes) (node : Node) : Files :=
  if (f.entries.lookup place).isSome then
    { f with entries := f.entries.map fun (p, n) => if p == place then (p, node) else (p, n) }
  else { f with entries := f.entries ++ [(place, node)] }

/-- The tree with directories made where none are, on the way to a place and there. -/
def addDirectory (f : Files) (place : List Bytes) : Files :=
  (List.range place.length).foldl (fun f k =>
    let front := place.take (k + 1)
    if (f.entries.lookup front).isSome then f else f.set front .directory) f

/-- The tree with a file and the directories on the way to it. -/
def addFile (f : Files) (place : List Bytes) (content : Bytes) : Files :=
  (f.addDirectory place.dropLast).set place (.file content)

/-! ## Paths -/

/-- The names in a path, between slashes of any number. -/
def names (path : Bytes) : List Bytes := (path.splitOn 0x2F).filter fun name => name != []

/-- Whether a path asks for a directory by its last character. -/
def endsInSlash (path : Bytes) : Bool := path.getLast? == some 0x2F

/-- The place that a name leads to from a directory. A dot stays there; two dots lead out of it, but
not out of the root. -/
def next (place : List Bytes) (name : Bytes) : List Bytes :=
  if name = utf8 "." then place
  else if name = utf8 ".." then place.dropLast
  else place ++ [name]

/-- The place that a name leads to, if it is looked up in a directory. -/
def enter (f : Files) (place : List Bytes) (name : Bytes) : Except FileError (List Bytes) :=
  match f.node? place with
  | none => .error .notFound
  | some (.file _) => .error .notDirectory
  | some .directory => if 255 < name.length then .error .nameTooLong else .ok (next place name)

/-- Where the names of a path are looked up from. -/
def origin (f : Files) (path : Bytes) : List Bytes :=
  if path.head? == some 0x2F then [] else f.cwd

/-- The names on the way that a path describes, if it can describe one. -/
def wayOf (path : Bytes) : Except FileError (List Bytes) :=
  if path.contains 0 then .error .badName
  else if path = [] then .error .notFound
  else if 4096 ≤ path.length then .error .nameTooLong
  else .ok (names path)

/-- The place that a path leads to, if there are directories all the way. -/
def locate (f : Files) (path : Bytes) : Except FileError (List Bytes) :=
  match wayOf path with
  | .error e => .error e
  | .ok way => way.foldlM f.enter (f.origin path)

/-- The directory in which the last name of a path is looked up. -/
def locateParent (f : Files) (path : Bytes) : Except FileError (List Bytes) :=
  match wayOf path with
  | .error e => .error e
  | .ok way => (way.dropLast ++ [utf8 "."]).foldlM f.enter (f.origin path)

/-- The entry that a path leads to, to be read. -/
def openRead (f : Files) (path : Bytes) : Except FileError Node :=
  match f.locate path with
  | .error e => .error e
  | .ok place =>
    match f.node? place with
    | none => .error .notFound
    | some .directory => .ok .directory
    | some (.file content) => if endsInSlash path then .error .notDirectory else .ok (.file content)

/-- The file that a path leads to, to be written; a new one is made if there is none. With
`truncate`, an old one is emptied. A path that asks for a directory is not looked up to its end. -/
def openWrite (f : Files) (truncate : Bool) (path : Bytes) :
    Except FileError (List Bytes × Files) :=
  if endsInSlash path then
    match f.locateParent path with
    | .error e => .error e
    | .ok _ => .error .isDirectory
  else
    match f.locate path with
    | .error e => .error e
    | .ok place =>
      match f.node? place with
      | some .directory => .error .isDirectory
      | some (.file _) => .ok (place, if truncate then f.set place (.file []) else f)
      | none => .ok (place, f.set place (.file []))

/-! ## Content -/

/-- The content of a file. -/
def content (f : Files) (place : List Bytes) : Bytes :=
  match f.node? place with
  | some (.file content) => content
  | _ => []

/-- The tree with bytes added at the end of a file. -/
def append (f : Files) (place : List Bytes) (data : Bytes) : Files :=
  f.set place (.file (f.content place ++ data))

/-- The tree with the first bytes of a file replaced by `data`. -/
def overwrite (f : Files) (place : List Bytes) (data : Bytes) : Files :=
  f.set place (.file (data ++ (f.content place).drop data.length))

/-- The files that are not in an older tree with the same content, with their places. -/
def changes (f : Files) (older : Files) : List (List Bytes × Bytes) :=
  f.entries.filterMap fun (place, node) =>
    match node with
    | .file content =>
      if older.entries.lookup place = some (.file content) then none else some (place, content)
    | .directory => none

end Files

end LogicMill
