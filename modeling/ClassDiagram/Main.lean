import ClassDiagram.Command.Run

/-!
# The program

The files of the machine as a storage, and the program that runs a command line on them.
Nothing is decided here: what a command does is said in `Command.run`. The machine is asked
for files by the texts that spell their paths.
-/

namespace ClassDiagram.Machine

/-- Runs an action on a file and turns an error into a fault. -/
def catching {α : Type} (action : IO α) : IO (Except Fault α) := do
  try
    return .ok (← action)
  catch e =>
    match e with
    | .noFileOrDirectory .. => return .error .notFound
    | .inappropriateType .. => return .error .notADirectory
    | _ => return .error (.other (toString e))

/-- What a path leads to, if anything. -/
def node? (path : RawPath) : IO (Option Node) := do
  let some text := path.text? | return none
  try
    let place ← IO.FS.realPath text
    return some (if ← place.isDir then .directory else .file)
  catch _ =>
    return none

/-- The path, from the top and without detours, of what a path leads to. -/
def canonical? (path : RawPath) : IO (Option RawPath) := do
  let some text := path.text? | return none
  try
    return some (.ofText (← IO.FS.realPath text).toString)
  catch _ =>
    return none

/-- Runs an action on a path that is no directory. -/
def onFile {α : Type} (path : RawPath) (action : String → IO α) : IO (Except Fault α) := do
  let some text := path.text? | return .error .notFound
  if (← node? path) == some .directory then return .error .isDirectory
  catching (action text)

/-- The files in a directory and in those below it, reached through the names in `above`,
the last one first. Links are not followed. -/
partial def walk (directory : String) (above : List RawPath) : IO (List (List RawPath)) := do
  try
    let mut found : List (List RawPath) := []
    for entry in ← (← IO.FS.realPath directory).readDir do
      let names := .ofText entry.fileName :: above
      match (← entry.path.symlinkMetadata).type with
      | .dir => found := found ++ (← walk entry.path.toString names)
      | .file => found := found ++ [names.reverse]
      | _ => pure ()
    return found
  catch _ =>
    return []

/-- Every file below a path. -/
def filesBelow (path : RawPath) : IO (List (List RawPath)) := do
  let some text := path.text? | return []
  match ← node? path with
  | none => return []
  | some .file => return [[]]
  | some .directory => walk text []

/-- The files of the machine. -/
def storage : Storage IO where
  node? := node?
  canonical? := canonical?
  read path := onFile path fun text => IO.FS.readBinFile text
  write path bytes := onFile path fun text => IO.FS.writeBinFile text bytes
  filesBelow := filesBelow

/-- What is written about an argument list that does not make sense. -/
def usage : String :=
  "usage: umlgen analyze PATH [-f FORMAT] [-c FILE] [--strict] [--unknown-types CHOICE] " ++
  "[--compact]\n       umlgen init [--force]\n       umlgen --version\n"

end ClassDiagram.Machine

/-- Runs a command line. -/
def main (args : List String) : IO UInt32 := do
  match ClassDiagram.Command.parse? args with
  | none =>
    (← IO.getStderr).putStr ClassDiagram.Machine.usage
    return 2
  | some command =>
    let outcome ← command.run ClassDiagram.Machine.storage
    let stdout ← IO.getStdout
    stdout.putStr outcome.stdout
    stdout.flush
    (← IO.getStderr).putStr outcome.stderr
    return outcome.exitCode.toUInt32
