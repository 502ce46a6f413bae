import ClassDiagram.Json.Decode
import ClassDiagram.Settings

/-!
# Settings as documents

The data format of the settings. Every field may be left out.
-/

namespace ClassDiagram

open Json

/-- The words for what becomes of unknown types, in their exact case. -/
def UnknownTypes.words : List (String × UnknownTypes) :=
  [("foreign", .foreign), ("external", .external)]

namespace ResolverSettings

/-- The document of the resolver settings. -/
def toJson (s : ResolverSettings) : Json :=
  .obj [("fail_on_unresolved_type", .bool s.strict),
    ("unknown_types", .str s.unknownTypes.text),
    ("user_types", .strings s.userTypes),
    ("foreign_types", .strings s.foreignTypes),
    ("foreign_prefixes", .strings s.foreignPrefixes),
    ("list_types", .strings s.listTypes),
    ("set_types", .strings s.setTypes),
    ("map_types", .strings s.mapTypes),
    ("optional_types", .strings s.optionalTypes)]

/-- Reads the resolver settings. -/
def ofJson? (v : Json) : Option ResolverSettings := do
  let r ← asRecord 9 v
  return {
    strict := ← r.defaulting 0 "fail_on_unresolved_type" false asBool
    unknownTypes := ← r.defaulting 1 "unknown_types" .foreign (asOneOf UnknownTypes.words)
    userTypes := ← r.defaulting 2 "user_types" [] (asList asString)
    foreignTypes := ← r.defaulting 3 "foreign_types" [] (asList asString)
    foreignPrefixes :=
      ← r.defaulting 4 "foreign_prefixes" ({} : ResolverSettings).foreignPrefixes (asList asString)
    listTypes := ← r.defaulting 5 "list_types" [] (asList asString)
    setTypes := ← r.defaulting 6 "set_types" [] (asList asString)
    mapTypes := ← r.defaulting 7 "map_types" [] (asList asString)
    optionalTypes := ← r.defaulting 8 "optional_types" [] (asList asString) }

end ResolverSettings

namespace ProjectSettings

/-- The document of the project settings. -/
def toJson (s : ProjectSettings) : Json :=
  .obj [("exclude_patterns", .strings s.excludePatterns)]

/-- Reads the project settings. -/
def ofJson? (v : Json) : Option ProjectSettings := do
  let r ← asRecord 1 v
  return {
    excludePatterns :=
      ← r.defaulting 0 "exclude_patterns" ({} : ProjectSettings).excludePatterns (asList asString) }

end ProjectSettings

namespace OutputSettings

/-- The document of the output settings. -/
def toJson (s : OutputSettings) : Json :=
  .obj [("format", .str s.format), ("include_members", .bool s.includeMembers)]

/-- Reads the output settings. -/
def ofJson? (v : Json) : Option OutputSettings := do
  let r ← asRecord 2 v
  return {
    format := ← r.defaulting 0 "format" "text" asString
    includeMembers := ← r.defaulting 1 "include_members" true asBool }

end OutputSettings

namespace Settings

/-- The document of all settings. -/
def toJson (s : Settings) : Json :=
  .obj [("project", s.project.toJson), ("resolver", s.resolver.toJson),
    ("output", s.output.toJson)]

/-- Reads all settings. -/
def ofJson? (v : Json) : Option Settings := do
  let r ← asRecord 3 v
  return {
    project := ← r.defaulting 0 "project" {} ProjectSettings.ofJson?
    resolver := ← r.defaulting 1 "resolver" {} ResolverSettings.ofJson?
    output := ← r.defaulting 2 "output" {} OutputSettings.ofJson? }

end Settings

end ClassDiagram
