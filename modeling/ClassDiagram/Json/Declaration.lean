import ClassDiagram.Declaration
import ClassDiagram.Json.Decode

/-!
# Declarations as documents

The data format of declarations: `toJson` writes a value with all its fields, `ofJson?`
reads it back and fills in defaults. Reading what was written gives the value again. A
location in a file whose path is no text has no document, and so the declaration has none.
-/

namespace ClassDiagram

open Json

namespace TypeRef

mutual

/-- The document of a type. -/
def toJson : TypeRef → Json
  | .named name args =>
    .obj [("named", .obj [("name", .str name), ("args", .arr (argsToJson args))])]
  | .array element => .obj [("array", element.toJson)]

/-- The documents of type arguments. -/
def argsToJson : List TypeRef → List Json
  | [] => []
  | a :: rest => a.toJson :: argsToJson rest

end

/-- Reads a type out of a document nested at most `fuel` deep. -/
def read : Nat → Reader TypeRef
  | 0, _ => none
  | fuel + 1, v =>
    match v with
    | .obj [("named", payload)] => do
      let r ← asRecord 2 payload
      let name ← r.required 0 "name" asString
      let args ← r.required 1 "args" (asList (read fuel))
      return .named name args
    | .obj [("array", element)] => (read fuel element).map .array
    | _ => none

/-- Reads a type: an object with a single key, `named` or `array`. -/
def ofJson? (v : Json) : Option TypeRef :=
  read (v.depth + 1) v

end TypeRef

/-- The words for visibilities. -/
def Visibility.words : List (String × Visibility) :=
  [("public", .public), ("protected", .protected), ("private", .private), ("package", .package)]

/-- The word for a visibility. -/
def Visibility.text : Visibility → String
  | .public => "public"
  | .protected => "protected"
  | .private => "private"
  | .package => "package"

/-- The words for kinds of declared types. -/
def DeclKind.words : List (String × DeclKind) :=
  [("class", .class), ("abstract-class", .abstractClass), ("interface", .interface),
   ("enum", .enum)]

/-- The word for a kind of declared type. -/
def DeclKind.text : DeclKind → String
  | .class => "class"
  | .abstractClass => "abstract-class"
  | .interface => "interface"
  | .enum => "enum"

/-- The words for the ways to name a supertype. -/
def SupertypeKind.words : List (String × SupertypeKind) :=
  [("extends", .extends), ("implements", .implements)]

/-- The word for a way to name a supertype. -/
def SupertypeKind.text : SupertypeKind → String
  | .extends => "extends"
  | .implements => "implements"

namespace SourceLocation

/-- The document of a location. A file is written as text, so a path that is none has no
document. -/
def toJson? (l : SourceLocation) : Option Json := do
  let file ← l.file.text?
  return .obj [("file", .str file), ("line", .nat l.line), ("column", .nat l.column)]

/-- Reads a location. -/
def ofJson? (v : Json) : Option SourceLocation := do
  let r ← asRecord 3 v
  return {
    file := .ofText (← r.required 0 "file" asString)
    line := ← r.required 1 "line" asNat64
    column := ← r.required 2 "column" asNat64 }

end SourceLocation

namespace Initializer

/-- The document of an initializer. -/
def toJson : Initializer → Json
  | .absent => .str "none"
  | .construct type => .obj [("new", type.toJson)]
  | .other => .str "other"

/-- Reads an initializer. -/
def ofJson? (v : Json) : Option Initializer :=
  match asChoice v with
  | some ("new", some type) => (TypeRef.ofJson? type).map .construct
  | _ => asOneOf [("none", .absent), ("other", .other)] v

end Initializer

namespace AssignSource

/-- The document of an assignment's right-hand side. -/
def toJson : AssignSource → Json
  | .construct type => .obj [("new", type.toJson)]
  | .parameter name => .obj [("parameter", .str name)]
  | .other => .str "other"

/-- Reads an assignment's right-hand side. -/
def ofJson? (v : Json) : Option AssignSource :=
  match asChoice v with
  | some ("new", some type) => (TypeRef.ofJson? type).map .construct
  | some ("parameter", some name) => (asString name).map .parameter
  | _ => asOneOf [("other", .other)] v

end AssignSource

namespace FieldDecl

/-- The document of a field. -/
def toJson (f : FieldDecl) : Json :=
  .obj [("name", .str f.name), ("ty", f.type.toJson), ("visibility", .str f.visibility.text),
    ("is_static", .bool f.isStatic), ("is_final", .bool f.isFinal),
    ("nullable", .ofOption .bool f.nullable), ("initializer", f.initializer.toJson)]

/-- Reads a field. -/
def ofJson? (v : Json) : Option FieldDecl := do
  let r ← asRecord 7 v
  return {
    name := ← r.required 0 "name" asString
    type := ← r.required 1 "ty" TypeRef.ofJson?
    visibility := ← r.defaulting 2 "visibility" .package (asOneOf Visibility.words)
    isStatic := ← r.defaulting 3 "is_static" false asBool
    isFinal := ← r.defaulting 4 "is_final" false asBool
    nullable := ← r.defaulting 5 "nullable" none (asOption asBool)
    initializer := ← r.defaulting 6 "initializer" .absent Initializer.ofJson? }

end FieldDecl

namespace Binding

/-- The document of a parameter or local variable. -/
def toJson (b : Binding) : Json :=
  .obj [("name", .str b.name), ("ty", b.type.toJson)]

/-- Reads a parameter or local variable. -/
def ofJson? (v : Json) : Option Binding := do
  let r ← asRecord 2 v
  return {
    name := ← r.required 0 "name" asString
    type := ← r.required 1 "ty" TypeRef.ofJson? }

end Binding

namespace FieldAssignment

/-- The document of an assignment to a field. -/
def toJson (a : FieldAssignment) : Json :=
  .obj [("field", .str a.field), ("source", a.source.toJson)]

/-- Reads an assignment to a field. -/
def ofJson? (v : Json) : Option FieldAssignment := do
  let r ← asRecord 2 v
  return {
    field := ← r.required 0 "field" asString
    source := ← r.required 1 "source" AssignSource.ofJson? }

end FieldAssignment

namespace StaticCall

/-- The document of a static call. -/
def toJson (c : StaticCall) : Json :=
  .obj [("ty", c.type.toJson), ("method", .str c.method)]

/-- Reads a static call. -/
def ofJson? (v : Json) : Option StaticCall := do
  let r ← asRecord 2 v
  return {
    type := ← r.required 0 "ty" TypeRef.ofJson?
    method := ← r.required 1 "method" asString }

end StaticCall

namespace BodyFacts

/-- The document of the facts about a body. -/
def toJson (b : BodyFacts) : Json :=
  .obj [("member_accesses", .strings b.memberAccesses),
    ("call_arguments", .strings b.callArguments),
    ("field_assignments", .ofList FieldAssignment.toJson b.fieldAssignments),
    ("static_calls", .ofList StaticCall.toJson b.staticCalls),
    ("locals", .ofList Binding.toJson b.locals),
    ("delegates_to_this", .bool b.delegatesToThis)]

/-- Reads the facts about a body. -/
def ofJson? (v : Json) : Option BodyFacts := do
  let r ← asRecord 6 v
  return {
    memberAccesses := ← r.defaulting 0 "member_accesses" [] (asList asString)
    callArguments := ← r.defaulting 1 "call_arguments" [] (asList asString)
    fieldAssignments := ← r.defaulting 2 "field_assignments" [] (asList FieldAssignment.ofJson?)
    staticCalls := ← r.defaulting 3 "static_calls" [] (asList StaticCall.ofJson?)
    locals := ← r.defaulting 4 "locals" [] (asList Binding.ofJson?)
    delegatesToThis := ← r.defaulting 5 "delegates_to_this" false asBool }

end BodyFacts

namespace MethodDecl

/-- The document of a constructor or method. -/
def toJson (m : MethodDecl) : Json :=
  .obj [("name", .str m.name), ("params", .ofList Binding.toJson m.params),
    ("return_type", .ofOption TypeRef.toJson m.returnType),
    ("visibility", .str m.visibility.text), ("is_static", .bool m.isStatic),
    ("is_abstract", .bool m.isAbstract), ("body", m.body.toJson)]

/-- Reads a constructor or method. -/
def ofJson? (v : Json) : Option MethodDecl := do
  let r ← asRecord 7 v
  return {
    name := ← r.required 0 "name" asString
    params := ← r.defaulting 1 "params" [] (asList Binding.ofJson?)
    returnType := ← r.defaulting 2 "return_type" none (asOption TypeRef.ofJson?)
    visibility := ← r.defaulting 3 "visibility" .package (asOneOf Visibility.words)
    isStatic := ← r.defaulting 4 "is_static" false asBool
    isAbstract := ← r.defaulting 5 "is_abstract" false asBool
    body := ← r.defaulting 6 "body" {} BodyFacts.ofJson? }

end MethodDecl

namespace Supertype

/-- The document of a supertype. -/
def toJson (s : Supertype) : Json :=
  .obj [("ty", s.type.toJson), ("kind", .str s.kind.text)]

/-- Reads a supertype. -/
def ofJson? (v : Json) : Option Supertype := do
  let r ← asRecord 2 v
  return {
    type := ← r.required 0 "ty" TypeRef.ofJson?
    kind := ← r.required 1 "kind" (asOneOf SupertypeKind.words) }

end Supertype

namespace ClassDecl

/-- The document of a declaration, if its location has one. -/
def toJson? (d : ClassDecl) : Option Json := do
  let location ← Json.ofOption? SourceLocation.toJson? d.location
  return .obj [("name", .str d.name), ("kind", .str d.kind.text),
    ("fields", .ofList FieldDecl.toJson d.fields),
    ("constructors", .ofList MethodDecl.toJson d.constructors),
    ("methods", .ofList MethodDecl.toJson d.methods),
    ("supertypes", .ofList Supertype.toJson d.supertypes),
    ("imports", .strings d.imports),
    ("location", location)]

/-- Reads a declaration. -/
def ofJson? (v : Json) : Option ClassDecl := do
  let r ← asRecord 8 v
  return {
    name := ← r.required 0 "name" asString
    kind := ← r.required 1 "kind" (asOneOf DeclKind.words)
    fields := ← r.defaulting 2 "fields" [] (asList FieldDecl.ofJson?)
    constructors := ← r.defaulting 3 "constructors" [] (asList MethodDecl.ofJson?)
    methods := ← r.defaulting 4 "methods" [] (asList MethodDecl.ofJson?)
    supertypes := ← r.defaulting 5 "supertypes" [] (asList Supertype.ofJson?)
    imports := ← r.defaulting 6 "imports" [] (asList asString)
    location := ← r.defaulting 7 "location" none (asOption SourceLocation.ofJson?) }

end ClassDecl

end ClassDiagram
