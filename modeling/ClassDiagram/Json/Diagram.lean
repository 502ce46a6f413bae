import ClassDiagram.Diagram.Model
import ClassDiagram.Json.Declaration

/-!
# Entities and relationships as documents

The data format of what a diagram is made of.
-/

namespace ClassDiagram

open Json

/-- The words for kinds of relationships. -/
def RelationshipKind.words : List (String × RelationshipKind) :=
  RelationshipKind.all.map fun k => (k.text, k)

/-- The words for multiplicities. -/
def Multiplicity.words : List (String × Multiplicity) :=
  [("1", .one), ("0..1", .zeroOrOne), ("0..*", .many)]

/-- The words for kinds of boxes. -/
def EntityKind.words : List (String × EntityKind) :=
  [("class", .class), ("abstract-class", .abstractClass), ("interface", .interface),
   ("enum", .enum), ("external", .external)]

namespace Relationship

/-- The document of a relationship. -/
def toJson (r : Relationship) : Json :=
  .obj [("source", .str r.source), ("target", .str r.target), ("kind", .str r.kind.text),
    ("multiplicity", .ofOption (fun m => .str m.text) r.multiplicity),
    ("label", .ofOption .str r.label)]

/-- Reads a relationship. -/
def ofJson? (v : Json) : Option Relationship := do
  let r ← asRecord 5 v
  return {
    source := ← r.required 0 "source" asString
    target := ← r.required 1 "target" asString
    kind := ← r.required 2 "kind" (asOneOf RelationshipKind.words)
    multiplicity := ← r.optional 3 "multiplicity" (asOneOf Multiplicity.words)
    label := ← r.optional 4 "label" asString }

end Relationship

namespace FieldSummary

/-- The document of a field shown in a box. -/
def toJson (f : FieldSummary) : Json :=
  .obj [("name", .str f.name), ("type", .str f.type), ("visibility", .str f.visibility.text)]

/-- Reads a field shown in a box. -/
def ofJson? (v : Json) : Option FieldSummary := do
  let r ← asRecord 3 v
  return {
    name := ← r.required 0 "name" asString
    type := ← r.required 1 "type" asString
    visibility := ← r.required 2 "visibility" (asOneOf Visibility.words) }

end FieldSummary

namespace ParamSummary

/-- The document of a parameter shown in a box. -/
def toJson (p : ParamSummary) : Json :=
  .obj [("name", .str p.name), ("type", .str p.type)]

/-- Reads a parameter shown in a box. -/
def ofJson? (v : Json) : Option ParamSummary := do
  let r ← asRecord 2 v
  return {
    name := ← r.required 0 "name" asString
    type := ← r.required 1 "type" asString }

end ParamSummary

namespace MethodSummary

/-- The document of a constructor or method shown in a box. -/
def toJson (m : MethodSummary) : Json :=
  .obj [("name", .str m.name), ("params", .ofList ParamSummary.toJson m.params),
    ("returnType", .ofOption .str m.returnType), ("visibility", .str m.visibility.text)]

/-- Reads a constructor or method shown in a box. -/
def ofJson? (v : Json) : Option MethodSummary := do
  let r ← asRecord 4 v
  return {
    name := ← r.required 0 "name" asString
    params := ← r.required 1 "params" (asList ParamSummary.ofJson?)
    returnType := ← r.optional 2 "returnType" asString
    visibility := ← r.required 3 "visibility" (asOneOf Visibility.words) }

end MethodSummary

namespace Entity

/-- The document of an entity, if its location has one. -/
def toJson? (e : Entity) : Option Json := do
  let location ← Json.ofOption? SourceLocation.toJson? e.location
  return .obj [("name", .str e.name), ("kind", .str e.kind.text),
    ("fields", .ofList FieldSummary.toJson e.fields),
    ("methods", .ofList MethodSummary.toJson e.methods),
    ("supertypes", .strings e.supertypes),
    ("location", location)]

/-- Reads an entity. -/
def ofJson? (v : Json) : Option Entity := do
  let r ← asRecord 6 v
  return {
    name := ← r.required 0 "name" asString
    kind := ← r.required 1 "kind" (asOneOf EntityKind.words)
    fields := ← r.required 2 "fields" (asList FieldSummary.ofJson?)
    methods := ← r.required 3 "methods" (asList MethodSummary.ofJson?)
    supertypes := ← r.required 4 "supertypes" (asList asString)
    location := ← r.optional 5 "location" SourceLocation.ofJson? }

end Entity

end ClassDiagram
