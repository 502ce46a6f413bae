import ClassDiagram.Declaration

/-!
# Entities

The boxes of a class diagram: a declared type reduced to what its box shows, or a
stub for a type that is referred to and declared nowhere.
-/

namespace ClassDiagram

/-- The kind of a box. -/
inductive EntityKind where
  | «class»
  | abstractClass
  | interface
  | enum
  /-- Referred to, but not declared. -/
  | external
  deriving DecidableEq, Inhabited, Repr

/-- The kind of the box of a declared type. -/
def DeclKind.toEntityKind : DeclKind → EntityKind
  | .class => .class
  | .abstractClass => .abstractClass
  | .interface => .interface
  | .enum => .enum

/-- The word for a kind of box. -/
def EntityKind.text : EntityKind → String
  | .class => "class"
  | .abstractClass => "abstract-class"
  | .interface => "interface"
  | .enum => "enum"
  | .external => "external"

/-- The mark before a member: `+`, `#` or `-`, and none for package visibility. -/
def Visibility.symbol : Visibility → String
  | .public => "+"
  | .protected => "#"
  | .private => "-"
  | .package => ""

/-- Where a location points, without the column: `file:line`. -/
def SourceLocation.text (l : SourceLocation) : String :=
  l.file.shown ++ ":" ++ Nat.repr l.line

/-- A field as its box shows it. -/
structure FieldSummary where
  name : String
  type : String
  visibility : Visibility
  deriving DecidableEq, Inhabited, Repr

/-- A parameter as its box shows it. -/
structure ParamSummary where
  name : String
  type : String
  deriving DecidableEq, Inhabited, Repr

/-- A constructor or method as its box shows it. -/
structure MethodSummary where
  name : String
  params : List ParamSummary
  returnType : Option String
  visibility : Visibility
  deriving DecidableEq, Inhabited, Repr

/-- A box of the diagram. -/
structure Entity where
  name : String
  kind : EntityKind
  fields : List FieldSummary
  methods : List MethodSummary
  supertypes : List String
  location : Option SourceLocation
  deriving DecidableEq, Inhabited, Repr

/-- What a box shows of a field. -/
def FieldDecl.summary (f : FieldDecl) : FieldSummary :=
  ⟨f.name, f.type.signature, f.visibility⟩

/-- What a box shows of a constructor or method. -/
def MethodDecl.summary (m : MethodDecl) : MethodSummary :=
  ⟨m.name, m.params.map fun p => ⟨p.name, p.type.signature⟩,
    m.returnType.map TypeRef.signature, m.visibility⟩

/-- The box of a declared type. -/
def ClassDecl.entity (decl : ClassDecl) : Entity where
  name := decl.name
  kind := decl.kind.toEntityKind
  fields := decl.fields.map FieldDecl.summary
  methods := decl.callables.map MethodDecl.summary
  supertypes := decl.supertypes.map fun s => s.type.signature
  location := decl.location

namespace Entity

/-- The stub for a type that is declared nowhere. -/
def stub (name : String) : Entity where
  name := name
  kind := .external
  fields := []
  methods := []
  supertypes := []
  location := none

/-- The name without its package. -/
def simpleName (e : Entity) : String :=
  Dotted.simpleName e.name

/-- Whether the entity is a stub. -/
def isExternal (e : Entity) : Bool :=
  e.kind == .external

end Entity

@[simp] theorem ClassDecl.entity_name (decl : ClassDecl) : decl.entity.name = decl.name := rfl

@[simp] theorem Entity.stub_name (name : String) : (Entity.stub name).name = name := rfl

/-- A declared type never gets the box of a stub. -/
theorem ClassDecl.entity_isExternal (decl : ClassDecl) : decl.entity.isExternal = false := by
  cases h : decl.kind <;> simp [Entity.isExternal, entity, DeclKind.toEntityKind, h]

end ClassDiagram
