/-!
# Settings

What a project can choose: which files to leave out, how types are resolved, and
how the diagram is shown. Every setting has a default, so the empty configuration is
a configuration.
-/

namespace ClassDiagram

/-- What becomes of a type that is neither declared, listed as user-defined nor known
to be foreign. -/
inductive UnknownTypes where
  /-- It is dropped like a library type. -/
  | foreign
  /-- It is kept and drawn as a stub. -/
  | external
  deriving DecidableEq, Inhabited, Repr

/-- The word for a choice. -/
def UnknownTypes.text : UnknownTypes → String
  | .foreign => "foreign"
  | .external => "external"

/-- Reads a choice, letter case aside. Lowering the ASCII capitals is enough: no
other character has a lower-case form that is a letter of the two words. -/
def UnknownTypes.parse? (s : String) : Option UnknownTypes :=
  let word := String.ofList (s.toList.map Char.toLower)
  if word == "foreign" then some .foreign
  else if word == "external" then some .external
  else none

/-- The complaint about a text that names no choice. -/
def UnknownTypes.refusal (s : String) : String :=
  "unknown type policy: " ++ s

/-- How types are resolved. The lists add to the built-in tables. -/
structure ResolverSettings where
  /-- Whether an unresolved type fails the declaration that refers to it. -/
  strict : Bool := false
  unknownTypes : UnknownTypes := .foreign
  /-- Names that count as user-defined although nothing declares them. -/
  userTypes : List String := []
  foreignTypes : List String := []
  /-- A name or import that begins with one of these is foreign. -/
  foreignPrefixes : List String := ["java.", "javax."]
  listTypes : List String := []
  setTypes : List String := []
  mapTypes : List String := []
  optionalTypes : List String := []
  deriving DecidableEq, Inhabited, Repr

/-- Which files of a project are analysed. -/
structure ProjectSettings where
  /-- Patterns for the paths, below the analysed directory, to leave out. -/
  excludePatterns : List String := ["**/target/**", "**/build/**", "**/generated/**"]
  deriving DecidableEq, Inhabited, Repr

/-- How the result is shown. -/
structure OutputSettings where
  format : String := "text"
  /-- Whether boxes show fields and methods. -/
  includeMembers : Bool := true
  deriving DecidableEq, Inhabited, Repr

/-- All settings of a run. -/
structure Settings where
  project : ProjectSettings := {}
  resolver : ResolverSettings := {}
  output : OutputSettings := {}
  deriving DecidableEq, Inhabited, Repr

/-- The settings file that a new project starts with. It spells out every default. -/
def Settings.template : String :=
  "# umlgen - Class Diagram Generation Configuration

[project]
# Glob patterns (relative to the analyzed directory) to skip
exclude_patterns = [\"**/target/**\", \"**/build/**\", \"**/generated/**\"]

[resolver]
# Fail the referencing class when a type cannot be classified
fail_on_unresolved_type = false
# Unknown types: \"foreign\" drops them, \"external\" draws them as stubs
unknown_types = \"foreign\"
# Types to treat as user-defined even when not part of the analyzed sources
user_types = []
# Extra library types and package prefixes to ignore
foreign_types = []
foreign_prefixes = [\"java.\", \"javax.\"]
# Extra container types, e.g. list_types = [\"ImmutableList\"]
list_types = []
set_types = []
map_types = []
optional_types = []

[output]
# One of \"text\", \"json\", \"glsp\", \"mermaid\", \"dot\"
format = \"text\"
include_members = true
"

end ClassDiagram
