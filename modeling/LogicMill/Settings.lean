import LogicMill.Capacity
import LogicMill.Cli.Options
import LogicMill.Files
import LogicMill.Toml.Document
import LogicMill.Trouble

/-! # Settings

Settings have defaults, may be given in a file, and may be overridden on the command line.

* `Settings`, `Settings.Valid`: the settings, and those that a machine can be run with.
* `Settings.Section`, `Settings.Field`: the settings as keys of a file. Names are matched in any case.
* `Settings.load`: the settings of a file.
* `Settings.override`: the settings as changed by the options of an invocation.
* `SettingsError`: why there are no settings, with its account.
-/

namespace LogicMill
set_option autoImplicit false

/-- What can be set for an invocation. -/
structure Settings where
  /-- The number of steps that a run may take. -/
  steps : Int := defaultStepLimit
  /-- The number of cells of the tape. -/
  tape : Int := maxTapeSize
  /-- An underscore in tape text is a blank. -/
  underscoreBlank : Bool := false
  /-- The name of the least urgent level that is logged. -/
  level : Bytes := utf8 "warn"
  /-- The file that is logged to, or empty if there is none. -/
  file : Bytes := []
deriving Repr, DecidableEq

/-- Why there are no settings. -/
inductive SettingsError where
  | unreadable (message : Bytes)
  | malformed
  | unknownKeys (file : Bytes) (keys : List Toml.Path)
  | badSteps (steps : Int)
  | badTape (cells : Int)
deriving Repr, DecidableEq

def SettingsError.trouble : SettingsError → Trouble
  | .unreadable message => ⟨message, [utf8 "config"]⟩
  | .malformed => ⟨utf8 "toml", [utf8 "config"]⟩
  | .unknownKeys file keys =>
    ⟨utf8 "config " ++ file ++ utf8 ": unknown keys " ++
      Bytes.join (utf8 ", ") (keys.map Toml.Path.text), []⟩
  | .badSteps n => ⟨utf8 "config: invalid step limit " ++ Bytes.ofInt n, []⟩
  | .badTape n =>
    ⟨utf8 "config: tape size must be between 1 and " ++ Bytes.ofNat maxTapeSize ++ utf8 ", got " ++
      Bytes.ofInt n, []⟩

namespace Settings

/-! ## Validity -/

/-- Settings that a machine can be run with. -/
def Valid (s : Settings) : Prop := 0 < s.steps ∧ 0 < s.tape ∧ s.tape ≤ maxTapeSize

/-- The settings, if a machine can be run with them. The number of steps is looked at first. -/
def check (s : Settings) : Except SettingsError Settings :=
  if s.steps ≤ 0 then .error (.badSteps s.steps)
  else if s.tape ≤ 0 ∨ maxTapeSize < s.tape then .error (.badTape s.tape)
  else .ok s

theorem valid_of_check_eq_ok {s t : Settings} (h : s.check = .ok t) : t = s ∧ t.Valid := by
  unfold check at h
  split at h
  · simp at h
  · split at h
    · simp at h
    · cases h
      refine ⟨rfl, ?_, ?_, ?_⟩ <;> omega

/-! ## Files -/

/-- The tables of a file in which settings are given. -/
inductive Section where
  | limits
  | tape
  | log
deriving Repr, DecidableEq

/-- The settings as they can be given in a file. -/
inductive Field where
  | steps
  | tape
  | underscoreBlank
  | level
  | file
deriving Repr, DecidableEq

/-- A letter of a key as it is compared with the names of settings: without case, with the letters
that differ from `k` and `s` in case only. -/
def foldCase (c : Char) : Char :=
  if c = '\u017F' then 's' else if c = '\u212A' then 'k' else c.toLower

/-- A name in a file as it is compared with the names of settings. -/
def foldName (name : Bytes) : Bytes := Utf8.encode ((Utf8.chars name).map foldCase)

/-- The section with a name. -/
def Section.ofName? (name : Bytes) : Option Section :=
  let name := foldName name
  if name = utf8 "limits" then some .limits
  else if name = utf8 "tape" then some .tape
  else if name = utf8 "log" then some .log
  else none

/-- The setting with a name in a section. -/
def Field.ofName? (part : Section) (name : Bytes) : Option Field :=
  let name := foldName name
  match part with
  | .limits =>
    if name = utf8 "steps" then some .steps else if name = utf8 "tape" then some .tape else none
  | .tape => if name = utf8 "underscore_blank" then some .underscoreBlank else none
  | .log =>
    if name = utf8 "level" then some .level else if name = utf8 "file" then some .file else none

/-- The settings with one of them given by a value, which must be of the right type. -/
def setField (s : Settings) : Field → Toml.Slot → Option Settings
  | .steps, .scalar (.integer n) => some { s with steps := n }
  | .tape, .scalar (.integer n) => some { s with tape := n }
  | .underscoreBlank, .scalar (.truth b) => some { s with underscoreBlank := b }
  | .level, .scalar (.text t) => some { s with level := t }
  | .file, .scalar (.text t) => some { s with file := t }
  | _, _ => none

/-- The settings with an entry of a section taken over, if it is a setting. -/
def take (s : Settings) (part : Section) (entry : Bytes × Toml.Slot) : Option Settings :=
  match Field.ofName? part entry.1 with
  | some field => s.setField field entry.2
  | none => some s

/-- The settings with an entry of the outermost table taken over, if it is a section. -/
def takeSection (d : Toml.Document) (s : Settings) (entry : Bytes × Toml.Slot) : Option Settings :=
  match Section.ofName? entry.1, entry.2 with
  | some part, .table number => (d.entries number).toList.foldlM (fun s entry => s.take part entry) s
  | some _, _ => none
  | none, _ => some s

/-- Whether a path leads to a section or a setting of a document. -/
def isGiven (d : Toml.Document) : Toml.Path → Bool
  | [name] => (Section.ofName? name).isSome && (d.find? 0 name).isSome
  | [outer, name] =>
    match Section.ofName? outer, d.find? 0 outer with
    | some part, some (.table number) =>
      (Field.ofName? part name).isSome && (d.find? number name).isSome
    | _, _ => false
  | _ => false

/-- The settings of a document read from a file. Keys that lead to no settings are refused, also
those whose value was replaced later. -/
def ofDocument (file : Bytes) (d : Toml.Document) : Except SettingsError Settings :=
  match (d.entries 0).toList.foldlM (takeSection d) ({} : Settings) with
  | none => .error .malformed
  | some s =>
    match d.keys.filter fun path => !isGiven d path with
    | [] => s.check
    | unknown => .error (.unknownKeys file unknown)

/-- The settings of a file, or the defaults if no file is named. -/
def load (files : Files) (path : Bytes) : Except SettingsError Settings :=
  if path = [] then .ok {}
  else
    match files.openRead path with
    | .error e => .error (.unreadable (e.message path))
    | .ok .directory =>
      .error (.unreadable (utf8 "read " ++ path ++ utf8 ": " ++ FileError.isDirectory.text))
    | .ok (.file content) =>
      match Toml.Document.ofText? content with
      | none => .error .malformed
      | some d => ofDocument path d

/-! ## Options -/

/-- The settings as changed by the options of an invocation. A trace needs the most talkative
level. -/
def override (s : Settings) (o : Cli.Options) : Except SettingsError Settings :=
  check {
    steps := o.stepLimit.getD s.steps
    tape := o.tapeSize.getD s.tape
    underscoreBlank := o.underscoreBlank.getD s.underscoreBlank
    level := if o.trace then utf8 "debug" else o.logLevel.getD s.level
    file := o.logFile.getD s.file }

/-- The settings in effect for an invocation. -/
def effective (files : Files) (o : Cli.Options) : Except SettingsError Settings :=
  match load files o.config with
  | .error e => .error e
  | .ok s => s.override o

end Settings

end LogicMill
