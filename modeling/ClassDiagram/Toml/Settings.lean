import ClassDiagram.Settings
import ClassDiagram.Toml.Value

/-!
# Settings out of documents

The settings a document makes. A section is a table whose unknown keys are ignored; it may
also be a list with its values in order, of which those beyond the last are ignored, or a
moment, which says nothing about any of them. What a section leaves out has its default.
-/

namespace ClassDiagram.Toml

/-- Reads a text. -/
def Value.asText : Value → Option String
  | .text s => some s
  | _ => none

/-- Reads a truth value. -/
def Value.asFlag : Value → Option Bool
  | .flag b => some b
  | _ => none

/-- Reads a list of texts. -/
def Value.asTexts : Value → Option (List String)
  | .list items => items.mapM Value.asText
  | _ => none

/-- Reads a choice: its word, or a table with the word as its only key and nothing in it. -/
def Value.asUnknownTypes : Value → Option UnknownTypes
  | .text s => word s
  | .table [(s, .table [])] => word s
  | .table [(s, .list [])] => word s
  | _ => none
where
  /-- The choice of a word, in its exact case. -/
  word (s : String) : Option UnknownTypes :=
    [UnknownTypes.foreign, .external].find? (·.text == s)

/-- A section as it was written. -/
inductive Section where
  | keyed (entries : List (String × Value))
  | listed (items : List Value)

/-- Sees a value as a section. -/
def Value.asSection : Value → Option Section
  | .table entries => some (.keyed entries)
  | .list items => some (.listed items)
  | .moment _ => some (.keyed [])
  | _ => none

/-- The setting `key`, which is the `i`-th of its section, or its default. -/
def Section.get {α : Type} (s : Section) (i : Nat) (key : String) (default : α)
    (read : Value → Option α) : Option α :=
  let found := match s with
    | .keyed entries => entries.lookup key
    | .listed items => items[i]?
  match found with
  | none => some default
  | some v => read v

/-- Reads the resolver settings. -/
def resolverSettings? (v : Value) : Option ResolverSettings := do
  let s ← v.asSection
  let defaults : ResolverSettings := {}
  return {
    strict := ← s.get 0 "fail_on_unresolved_type" defaults.strict Value.asFlag
    unknownTypes := ← s.get 1 "unknown_types" defaults.unknownTypes Value.asUnknownTypes
    userTypes := ← s.get 2 "user_types" defaults.userTypes Value.asTexts
    foreignTypes := ← s.get 3 "foreign_types" defaults.foreignTypes Value.asTexts
    foreignPrefixes := ← s.get 4 "foreign_prefixes" defaults.foreignPrefixes Value.asTexts
    listTypes := ← s.get 5 "list_types" defaults.listTypes Value.asTexts
    setTypes := ← s.get 6 "set_types" defaults.setTypes Value.asTexts
    mapTypes := ← s.get 7 "map_types" defaults.mapTypes Value.asTexts
    optionalTypes := ← s.get 8 "optional_types" defaults.optionalTypes Value.asTexts }

/-- Reads the project settings. -/
def projectSettings? (v : Value) : Option ProjectSettings := do
  let s ← v.asSection
  let defaults : ProjectSettings := {}
  return {
    excludePatterns := ← s.get 0 "exclude_patterns" defaults.excludePatterns Value.asTexts }

/-- Reads the output settings. -/
def outputSettings? (v : Value) : Option OutputSettings := do
  let s ← v.asSection
  let defaults : OutputSettings := {}
  return {
    format := ← s.get 0 "format" defaults.format Value.asText
    includeMembers := ← s.get 1 "include_members" defaults.includeMembers Value.asFlag }

/-- Reads all settings. -/
def settings? (v : Value) : Option Settings := do
  let s ← v.asSection
  return {
    project := ← s.get 0 "project" {} projectSettings?
    resolver := ← s.get 1 "resolver" {} resolverSettings?
    output := ← s.get 2 "output" {} outputSettings? }

end ClassDiagram.Toml
