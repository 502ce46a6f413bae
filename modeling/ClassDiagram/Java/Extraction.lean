import ClassDiagram.Java.BodyFacts

/-!
# Declarations of a source file

Every class, interface, enum and record at the top level of a file, or nested in the body of
such a type, gives one declaration: the outer type before its nested types, siblings in the
order of the source. Its name is the package and the names of the enclosing types and its
own, joined by dots.
-/

namespace ClassDiagram.Java

namespace Modifier

/-- The visibility that modifiers give; the last one counts. -/
def visibility? (ms : List Modifier) : Option Visibility :=
  (ms.filterMap fun | .visibility v => some v | _ => none).getLast?

/-- What a mark says about null, by the last segment of its name. -/
def nullability? (name : String) : Option Bool :=
  let simple := Dotted.simpleName name
  if ["Nullable", "CheckForNull"].contains simple then some true
  else if ["NonNull", "Nonnull", "NotNull"].contains simple then some false
  else none

/-- What the marks among modifiers say about null; the last one that says anything counts. -/
def nullable? (ms : List Modifier) : Option Bool :=
  (ms.filterMap fun | .mark name => nullability? name | _ => none).getLast?

/-- The visibility of a member. Members of an interface are public unless they say
otherwise. -/
def memberVisibility (ms : List Modifier) (inInterface : Bool) : Visibility :=
  (visibility? ms).getD (if inInterface then .public else .package)

end Modifier

/-- A parameter, if its type is one. -/
def Param.toBinding? (p : Param) : Option Binding :=
  p.type.toTypeRef?.map fun t =>
    ⟨p.name, if p.variadic then .array t else t.arrayOf p.dimensions⟩

/-- The parameters whose types are types. -/
def bindings (params : List Param) : List Binding :=
  params.filterMap Param.toBinding?

/-- How a field is initialized. -/
def Declarator.initializer (d : Declarator) : Initializer :=
  match d.value? with
  | none => .absent
  | some value =>
    match value.created? with
    | some t => .construct t
    | none => .other

/-- The fields of a field declaration. -/
def fieldDecls (inInterface : Bool) (ms : List Modifier) (type : TypeExpr)
    (declarators : List Declarator) : List FieldDecl :=
  match type.toTypeRef? with
  | none => []
  | some t => declarators.map fun d =>
    { name := d.name
      type := t.arrayOf d.dimensions
      visibility := Modifier.memberVisibility ms inInterface
      isStatic := ms.contains .static || inInterface
      isFinal := ms.contains .final || inInterface
      nullable := Modifier.nullable? ms
      initializer := d.initializer }

/-- The fields that a member declares. -/
def Member.fieldDecls (inInterface : Bool) : Member → List FieldDecl
  | .field ms type declarators => Java.fieldDecls inInterface ms type declarators
  | _ => []

/-- The constructor that a member declares, in a type with the given fields. -/
def Member.constructor? (inInterface : Bool) (fields : List String) :
    Member → Option MethodDecl
  | .constructor ms name params body => some
    { name := name
      params := bindings params
      visibility := Modifier.memberVisibility ms inInterface
      isStatic := ms.contains .static
      isAbstract := ms.contains .abstract
      body := factsOf (bindings params) fields (allSightings body) }
  | _ => none

/-- The method that a member declares, in a type with the given fields. In an interface a
method without a body is abstract unless it says otherwise. -/
def Member.method? (inInterface : Bool) (fields : List String) : Member → Option MethodDecl
  | .method ms type name params body => some
    { name := name
      params := bindings params
      returnType := type.toTypeRef?
      visibility := Modifier.memberVisibility ms inInterface
      isStatic := ms.contains .static
      isAbstract := ms.contains .abstract
        || (inInterface && body.isNone && !ms.contains .static && !ms.contains .default)
      body := match body with
        | some code => factsOf (bindings params) fields (allSightings code)
        | none => {} }
  | _ => none

/-- The kind of a declared type. -/
def TypeHead.kind (h : TypeHead) : DeclKind :=
  match h.keyword with
  | .interface => .interface
  | .enum => .enum
  | .class | .record => if h.modifiers.contains .abstract then .abstractClass else .class

/-- The fields of a record's components: private, final and without an initializer. -/
def componentFields (components : List Binding) : List FieldDecl :=
  components.map fun b =>
    { name := b.name, type := b.type, visibility := .private, isFinal := true }

/-- The constructor that a record has by itself: it assigns every component. -/
def canonicalConstructor (name : String) (components : List Binding) : MethodDecl where
  name := name
  params := components
  visibility := .public
  body := { fieldAssignments := components.map fun b => ⟨b.name, .parameter b.name⟩ }

/-- What a file says about all its declarations. -/
structure FileContext where
  path : RawPath
  imports : List String
  deriving Inhabited, Repr

/-- The declaration of a type under a qualified name. -/
def TypeHead.declaration (file : FileContext) (name : String) (h : TypeHead)
    (members : List Member) : ClassDecl :=
  let kind := h.kind
  let inInterface := kind == .interface
  let isRecord := h.keyword == .record
  let components := if isRecord then bindings h.components else []
  let fields := componentFields components ++ members.flatMap (Member.fieldDecls inInterface)
  let fieldNames := fields.map (·.name)
  { name := name
    kind := kind
    fields := fields
    constructors :=
      (if isRecord then [canonicalConstructor h.name components] else [])
        ++ members.filterMap (Member.constructor? inInterface fieldNames)
    methods := members.filterMap (Member.method? inInterface fieldNames)
    supertypes := h.supertypes.filterMap fun (k, t) => t.toTypeRef?.map fun r => ⟨r, k⟩
    imports := file.imports
    location := some ⟨file.path, h.line, h.column⟩ }

/-- A name below another one. -/
def qualify (outer : Option String) (name : String) : String :=
  match outer with
  | some o => o ++ "." ++ name
  | none => name

mutual

/-- The declarations of a type and of the types nested in it. -/
def TypeDecl.declarations (file : FileContext) (outer : Option String) :
    TypeDecl → List ClassDecl
  | .mk head members =>
    let name := qualify outer head.name
    head.declaration file name members :: nestedDeclarations file (some name) members

/-- The declarations of the types among members. -/
def nestedDeclarations (file : FileContext) (outer : Option String) :
    List Member → List ClassDecl
  | [] => []
  | m :: rest => m.declarations file outer ++ nestedDeclarations file outer rest

/-- The declarations of a member that is a type. -/
def Member.declarations (file : FileContext) (outer : Option String) : Member → List ClassDecl
  | .nested decl => decl.declarations file outer
  | _ => []

end

/-- All declarations of a source file. -/
def CompilationUnit.declarations (path : RawPath) (u : CompilationUnit) : List ClassDecl :=
  u.types.flatMap (TypeDecl.declarations ⟨path, u.imports⟩ u.package?)

end ClassDiagram.Java
