import ClassDiagram.Project.Path
import ClassDiagram.Project.Storage
import ClassDiagram.Toml.Grammar
import ClassDiagram.Toml.Settings

/-!
# The settings of a project

Settings are kept in a file. It may be named outright, and then it has to be readable; or
it is looked for in a directory and in those above it, and then the nearest one counts, and
one that cannot be used is as good as the empty one.
-/

namespace ClassDiagram.Configuration

/-- The name of the file that is looked for. -/
def fileName : String :=
  ".umlgen.toml"

/-- Why settings could not be loaded. -/
inductive LoadError where
  | unreadable (path : RawPath) (fault : Fault)
  | unusable (path : RawPath)
  deriving DecidableEq, Inhabited, Repr

/-- The wording of an error, without its cause. -/
def LoadError.message : LoadError → String
  | .unreadable path _ => "failed to read config file '" ++ path.shown ++ "'"
  | .unusable path =>
    "failed to parse '" ++ path.shown ++ "'. Run `umlgen init` to create a valid config file"

/-- The wording of an error with its cause. -/
def LoadError.fullMessage (e : LoadError) : String :=
  match e with
  | .unreadable _ fault => e.message ++ ": " ++ fault.message
  | .unusable _ => e.message

/-- The settings that the text of a file makes. -/
def parse? (text : String) : Option Settings := do
  Toml.settings? (← Toml.parse? text)

/-- Where settings are looked for, nearest first, by the directory to start from. -/
def candidates (directory : RawPath) : List RawPath :=
  (Path.ancestors directory).map fun above => Path.join above fileName

variable {m : Type → Type} [Monad m]

/-- Loads the settings in a file. -/
def load (s : Storage m) (path : RawPath) : m (Except LoadError Settings) := do
  match ← s.readText path with
  | .error fault => return .error (.unreadable path fault)
  | .ok text => return (parse? text).elim (.error (.unusable path)) .ok

/-- Loads the first of some files that is there at all. -/
def loadFirst (s : Storage m) : List RawPath → m Settings
  | [] => return {}
  | path :: rest => do
    if (← s.node? path).isSome then
      return (← load s path).toOption.getD {}
    else loadFirst s rest

/-- The settings that hold in a directory. What the directory leads to counts, and its name
only when there is no such directory. -/
def discover (s : Storage m) (directory : RawPath) : m Settings := do
  loadFirst s (candidates ((← s.canonical? directory).getD directory))

end ClassDiagram.Configuration
