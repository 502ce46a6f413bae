import ClassDiagram.Analysis
import ClassDiagram.Command.Options
import ClassDiagram.Project.Configuration
import ClassDiagram.Project.Sources

/-!
# Running commands

What a command does to the storage, and what it answers. An analysis that was made and
shown exits with 1 when a declaration failed and with 0 otherwise. A command that could not
be carried out writes nothing but one line about the reason, and exits with 2. This also
happens to an analysis that was made but cannot be written in the format asked for.
-/

namespace ClassDiagram

/-- What a run leaves behind. -/
structure Outcome where
  exitCode : Nat
  stdout : String
  stderr : String
  deriving DecidableEq, Inhabited, Repr

namespace Command

/-- Why a command could not be carried out. -/
inductive Refusal where
  | settings (e : Configuration.LoadError)
  | unknownTypes (text : String)
  | format (text : String)
  | notADirectory (path : RawPath)
  | analysis (e : AnalysisError)
  /-- The document of the analysis would have to name a path that is no text. -/
  | unwritable
  | alreadyThere
  | storage (fault : Fault)
  deriving DecidableEq, Inhabited, Repr

/-- The wording of a refusal. -/
def Refusal.message : Refusal → String
  | .settings e => e.fullMessage
  | .unknownTypes text => UnknownTypes.refusal text
  | .format text => "invalid output format in config: invalid variant: " ++ text
  | .notADirectory path => "'" ++ path.shown ++ "' is not a directory"
  | .analysis e => "analysis failed: " ++ e.message
  | .unwritable => "failed to serialize model: path contains invalid UTF-8 characters"
  | .alreadyThere => Configuration.fileName ++ " already exists. Use --force to overwrite."
  | .storage fault => fault.message

/-- The outcome of a command that could not be carried out. -/
def refuse (r : Refusal) : Outcome :=
  ⟨2, "", "Error: " ++ r.message ++ "\n"⟩

/-- The settings of a run: those loaded, with what the command line says about types. -/
def effectiveSettings (o : AnalyzeOptions) (loaded : Settings) : Except Refusal Settings := do
  let strict := o.strict || loaded.resolver.strict
  let unknownTypes ← match o.unknownTypes with
    | none => pure loaded.resolver.unknownTypes
    | some text =>
      match UnknownTypes.parse? text with
      | some choice => pure choice
      | none => throw (.unknownTypes text)
  return { loaded with resolver := { loaded.resolver with strict, unknownTypes } }

/-- The format of a run. -/
def effectiveFormat (o : AnalyzeOptions) (settings : Settings) : Except Refusal OutputFormat :=
  match o.format with
  | some format => .ok format
  | none =>
    match OutputFormat.parseLoosely? settings.output.format with
    | some format => .ok format
    | none => .error (.format settings.output.format)

/-- What a run writes for an analysis. Documents end with a line end like everything
else. -/
def textOf (format : OutputFormat) (o : AnalyzeOptions) (settings : Settings) (a : Analysis) :
    Except Refusal String :=
  let options : OutputFormat.Options :=
    { members := settings.output.includeMembers, compact := o.compact }
  match format.render? options a with
  | none => .error .unwritable
  | some text =>
    match format with
    | .json => .ok (text ++ "\n")
    | .glsp => .ok (text ++ "\n")
    | _ => .ok text

/-- The outcome of an analysis that was made and shown. -/
def conclude (shown : String) (a : Analysis) : Outcome where
  exitCode := if a.isComplete then 0 else 1
  stdout := shown
  stderr := Text.joinWith "" (a.failures.map fun e => "error: " ++ e.message ++ "\n")

/-- What an analysis is going to use, given the settings that were loaded. -/
def plan (o : AnalyzeOptions) (loaded : Settings) : Except Refusal (Settings × OutputFormat) := do
  let settings ← effectiveSettings o loaded
  return (settings, ← effectiveFormat o settings)

/-- The outcome of analysing declarations. -/
def report (o : AnalyzeOptions) (settings : Settings) (format : OutputFormat)
    (decls : List ClassDecl) : Except Refusal Outcome :=
  match Analysis.run settings.resolver decls with
  | .ok a => (textOf format o settings a).map fun shown => conclude shown a
  | .error e => .error (.analysis e)

variable {m : Type → Type} [Monad m]

/-- The settings an analysis starts from. -/
def loadSettings (s : Storage m) (o : AnalyzeOptions) : m (Except Refusal Settings) := do
  match o.config with
  | some path => return (← Configuration.load s path).mapError .settings
  | none => return .ok (← Configuration.discover s o.path)

/-- Analyses a directory. -/
def runAnalyze (s : Storage m) (o : AnalyzeOptions) : m (Except Refusal Outcome) := do
  match (← loadSettings s o).bind (plan o) with
  | .error r => return .error r
  | .ok (settings, format) =>
    if (← s.node? o.path) == some .directory then
      return report o settings format (← Sources.collect s settings.project o.path)
    else
      return .error (.notADirectory o.path)

/-- Writes a settings file into the working directory. -/
def runInit (s : Storage m) (force : Bool) : m (Except Refusal Outcome) := do
  if (← s.node? Configuration.fileName).isSome && !force then
    return .error .alreadyThere
  match ← s.write Configuration.fileName Settings.template.toUTF8 with
  | .ok () =>
    return .ok ⟨0, "Created " ++ Configuration.fileName ++ " with default configuration.\n", ""⟩
  | .error fault => return .error (.storage fault)

/-- Carries out a command. -/
def run (s : Storage m) (c : Command) : m Outcome := do
  let result ← match c with
    | .version => pure (.ok ⟨0, "umlgen 0.3.0\n", ""⟩)
    | .analyze o => runAnalyze s o
    | .init force => runInit s force
  match result with
  | .ok outcome => return outcome
  | .error r => return refuse r

end Command

end ClassDiagram
