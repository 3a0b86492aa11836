import LogicMill.Cli.Execute

/-! # The command

The outer layer of the command: it looks at the files that the arguments name, hands them with the
standard input to `Cli.execute`, and carries out what comes of it.

* `survey`: what is found on the way to a path.
* `main`: the command.
-/

namespace LogicMill.Command
set_option autoImplicit false

/-- A text as a string. Texts that are not valid UTF-8 name no file. -/
def stringOf (text : Bytes) : String := (String.fromUTF8? (ByteArray.mk text.toArray)).getD ""

/-- The absolute path of a place. -/
def pathOf (place : List Bytes) : String := "/" ++ stringOf (Bytes.join (utf8 "/") place)

/-- What is found at a place, on a path of directories. -/
def look (place : List Bytes) : IO (Option Node) :=
  tryCatch (do return some (.file (← IO.FS.readBinFile (pathOf place)).data.toList)) fun e =>
    match e with
    | .inappropriateType .. => return some .directory
    | _ => return none

/-- Looks up names one after another, as long as they lead to directories. -/
def surveyFrom (files : Files) (place : List Bytes) : List Bytes → IO Files
  | [] => return files
  | name :: rest => do
    let place := Files.next place name
    match ← look place with
    | some .directory => surveyFrom (files.addDirectory place) place rest
    | some (.file content) => return files.addFile place content
    | none => return files

/-- The files with what is found on the way to a path. -/
def survey (files : Files) (path : Bytes) : IO Files :=
  surveyFrom files (files.origin path) (Files.names path)

/-- The files that an invocation may ask for. The log file may be named in the settings. -/
def gather (o : Cli.Options) : IO Files := do
  let cwd := Files.names (utf8 (← IO.currentDir).toString)
  let files ← [o.program, o.tape, o.output, o.config, o.logFile.getD []].foldlM survey
    ({ cwd } : Files)
  match Settings.effective files o with
  | .ok s => survey files s.file
  | .error _ => return files

/-- Whether an invocation reads the standard input. -/
def readsInput (o : Cli.Options) : Bool :=
  o.interactive || o.program == standardStream || o.tape == standardStream || o.tape == []

/-- Carries out the command with the given arguments; the result is the exit status. -/
def run (args : List Bytes) : IO UInt32 := do
  let options := (Cli.Options.parse Cli.Flag.all args).toOption.getD {}
  let files ← gather options
  let stdin ← IO.getStdin
  let input ← if readsInput options && !options.help then stdin.readBinToEnd
    else pure ByteArray.empty
  let text := input.data.toList
  let typed := if ← stdin.isTty then some (Cli.Dialogue.lines text) else none
  let (status, site) := Cli.execute args ⟨text, none⟩ { files, typed }
  for (place, content) in site.files.changes files do
    IO.FS.writeBinFile (pathOf place) (ByteArray.mk content.toArray)
  (← IO.getStdout).write (ByteArray.mk site.stdout.stored)
  (← IO.getStderr).write (ByteArray.mk site.stderr.stored)
  return UInt32.ofNat status

end LogicMill.Command

/-- The command. -/
def main (args : List String) : IO UInt32 := LogicMill.Command.run (args.map LogicMill.utf8)
