import ClassDiagram.Render.Format

/-!
# The command line

What can be asked for on the command line. An option is given by its long name, or by one
letter if it has one; its value follows as the next argument or is attached, after an equals
sign or, with a letter, directly. Each option is given at most once. Two dashes end the
options, so that what follows is taken as it is. An argument list that does not make sense
is refused as a whole.
-/

namespace ClassDiagram

/-- What an analysis is asked to do. -/
structure AnalyzeOptions where
  /-- The directory to analyse. -/
  path : RawPath
  /-- The format to show the result in; without it the settings decide. -/
  format : Option OutputFormat := none
  /-- The file with the settings; without it one is looked for. -/
  config : Option RawPath := none
  strict : Bool := false
  /-- The text of the choice for unknown types, which replaces that of the settings. -/
  unknownTypes : Option String := none
  compact : Bool := false
  deriving DecidableEq, Inhabited, Repr

/-- What the command line asks for. -/
inductive Command where
  | version
  | analyze (options : AnalyzeOptions)
  /-- Writes a settings file; with `force` also over one that is there. -/
  | init (force : Bool)
  deriving DecidableEq, Inhabited, Repr

namespace Command

/-- An option that a command knows. -/
structure OptionSpec where
  long : String
  short : Option Char := none
  takesValue : Bool := false

/-- The arguments of a command, sorted. -/
structure Arguments where
  /-- The long names of the options given, each with its value or the empty text. -/
  options : List (String × String)
  positionals : List String
  deriving DecidableEq, Inhabited, Repr

namespace Arguments

/-- No arguments. -/
def empty : Arguments :=
  ⟨[], []⟩

/-- The arguments with an option in front. -/
def option (name value : String) (a : Arguments) : Arguments :=
  { a with options := (name, value) :: a.options }

/-- The arguments with a positional one in front. -/
def positional (value : String) (a : Arguments) : Arguments :=
  { a with positionals := value :: a.positionals }

/-- Whether no option is given twice. -/
def isOnce (a : Arguments) : Bool :=
  a.options.all fun o => (a.options.filter (·.1 == o.1)).length == 1

/-- The value of an option, if it is given. -/
def value? (a : Arguments) (name : String) : Option String :=
  a.options.lookup name

/-- Whether an option is given. -/
def has (a : Arguments) (name : String) : Bool :=
  (a.value? name).isSome

end Arguments

/-- An option as it is written in one argument, with the value attached to it. -/
structure Written where
  spec : OptionSpec
  attached : Option String

/-- Splits at the first equals sign. -/
def splitEquals (cs : List Char) : String × Option String :=
  let name := String.ofList (cs.takeWhile (· ≠ '='))
  match cs.dropWhile (· ≠ '=') with
  | [] => (name, none)
  | _ :: value => (name, some (String.ofList value))

/-- How an argument reads. -/
inductive Reading where
  | positional
  /-- Two dashes. -/
  | endOfOptions
  | written (w : Written)
  | unknown

/-- The value attached to a letter; an equals sign before it does not belong to it. -/
def attachedToLetter : List Char → Option String
  | [] => none
  | '=' :: value => some (String.ofList value)
  | value => some (String.ofList value)

/-- Reads one argument. -/
def readArgument (specs : List OptionSpec) (arg : String) : Reading :=
  match arg.toList with
  | ['-', '-'] => .endOfOptions
  | '-' :: '-' :: body =>
    let (name, attached) := splitEquals body
    match specs.find? (·.long == name) with
    | some spec => .written ⟨spec, attached⟩
    | none => .unknown
  | '-' :: letter :: body =>
    match specs.find? (·.short == some letter) with
    | some spec => .written ⟨spec, attachedToLetter body⟩
    | none => .unknown
  | _ => .positional

/-- Whether an argument can be the value of the option before it. -/
def isValue (arg : String) : Bool :=
  match arg.toList with
  | '-' :: _ :: _ => false
  | _ => true

/-- Sorts the arguments of a command with the given options. -/
def sort (specs : List OptionSpec) : List String → Option Arguments
  | [] => some .empty
  | arg :: rest =>
    match readArgument specs arg with
    | .unknown => none
    | .endOfOptions => some ⟨[], rest⟩
    | .positional => (sort specs rest).map (·.positional arg)
    | .written ⟨spec, attached⟩ =>
      match spec.takesValue, attached with
      | true, some value => (sort specs rest).map (·.option spec.long value)
      | true, none =>
        match rest with
        | value :: rest =>
          if isValue value then (sort specs rest).map (·.option spec.long value) else none
        | [] => none
      | false, none => (sort specs rest).map (·.option spec.long "")
      | false, some _ => none

/-- The options of an analysis. -/
def analyzeSpecs : List OptionSpec :=
  [{ long := "format", short := some 'f', takesValue := true },
   { long := "config", short := some 'c', takesValue := true },
   { long := "strict" },
   { long := "unknown-types", takesValue := true },
   { long := "compact" }]

/-- The options of writing a settings file. -/
def initSpecs : List OptionSpec :=
  [{ long := "force" }]

/-- Reads the arguments of an analysis. Paths are not empty, and a format is named
exactly. -/
def analyze? (args : List String) : Option Command := do
  let a ← sort analyzeSpecs args
  let [path] := a.positionals | none
  if path == "" || a.value? "config" == some "" || !a.isOnce then none
  let format ← match a.value? "format" with
    | none => some none
    | some name => (OutputFormat.parse? name).map some
  return .analyze {
    path := .ofText path
    format
    config := (a.value? "config").map .ofText
    strict := a.has "strict"
    unknownTypes := a.value? "unknown-types"
    compact := a.has "compact" }

/-- Reads the arguments of writing a settings file. -/
def init? (args : List String) : Option Command := do
  let a ← sort initSpecs args
  if !a.positionals.isEmpty || !a.isOnce then none
  return .init (a.has "force")

/-- Reads a command line. -/
def parse? : List String → Option Command
  | "analyze" :: args => analyze? args
  | "init" :: args => init? args
  | arg :: _ =>
    if arg == "--version" || Text.beginsWith arg "-V" then some .version else none
  | [] => none

end Command

end ClassDiagram
