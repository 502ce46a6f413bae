import ClassDiagram.RawPath
import ClassDiagram.Text.Dotted
import ClassDiagram.TypeRef

/-!
# Class declarations

What a front-end reports about one class-like type: its members, its supertypes
and, for each constructor and method, the handful of facts about its body that the
classification needs. Nothing here depends on the language the declaration was
written in.
-/

namespace ClassDiagram

/-- Where a declaration stands in a source file. Lines and columns count from one. -/
structure SourceLocation where
  file : RawPath
  line : Nat
  column : Nat
  deriving DecidableEq, Inhabited, Repr

/-- Who may see a member. -/
inductive Visibility where
  | «public»
  | «protected»
  | «private»
  | package
  deriving DecidableEq, Inhabited, Repr

/-- The kind of a declared type. -/
inductive DeclKind where
  | «class»
  | abstractClass
  | interface
  | enum
  deriving DecidableEq, Inhabited, Repr

/-- How a field is initialized where it is declared. -/
inductive Initializer where
  /-- Not at all. -/
  | absent
  /-- By a fresh instance of a type. -/
  | construct (type : TypeRef)
  /-- By any other expression. -/
  | other
  deriving Inhabited, Repr

/-- A field of a declared type. -/
structure FieldDecl where
  name : String
  type : TypeRef
  visibility : Visibility := .package
  isStatic : Bool := false
  isFinal : Bool := false
  /-- What a nullability mark on the field says, if there is one. -/
  nullable : Option Bool := none
  initializer : Initializer := .absent
  deriving Inhabited, Repr

/-- A name bound to a type: a parameter or a local variable. -/
structure Binding where
  name : String
  type : TypeRef
  deriving Inhabited, Repr

/-- The right-hand side of an assignment to a field. -/
inductive AssignSource where
  /-- A fresh instance of a type. -/
  | construct (type : TypeRef)
  /-- A parameter of the enclosing constructor or method. -/
  | parameter (name : String)
  | other
  deriving Inhabited, Repr

/-- An assignment to a field of the enclosing type. -/
structure FieldAssignment where
  field : String
  source : AssignSource
  deriving Inhabited, Repr

/-- A use of a type itself and not of an instance: `Type.method(…)` or
`Type.CONSTANT`. -/
structure StaticCall where
  type : TypeRef
  /-- The method called or the field read. -/
  method : String
  deriving Inhabited, Repr

/-- What the body of a constructor or method was seen to do. -/
structure BodyFacts where
  /-- Names of which a member was accessed. -/
  memberAccesses : List String := []
  /-- Names passed on as arguments of a call. -/
  callArguments : List String := []
  fieldAssignments : List FieldAssignment := []
  staticCalls : List StaticCall := []
  locals : List Binding := []
  /-- Whether the body begins by calling another constructor of its type. -/
  delegatesToThis : Bool := false
  deriving Inhabited, Repr

/-- Whether a member of `name` is accessed. -/
def BodyFacts.accesses (body : BodyFacts) (name : String) : Bool :=
  body.memberAccesses.contains name

/-- Whether `name` is passed to a call. -/
def BodyFacts.passes (body : BodyFacts) (name : String) : Bool :=
  body.callArguments.contains name

/-- A constructor or method. -/
structure MethodDecl where
  name : String
  params : List Binding := []
  /-- Nothing for a constructor and for a method without a result. -/
  returnType : Option TypeRef := none
  visibility : Visibility := .package
  isStatic : Bool := false
  isAbstract : Bool := false
  body : BodyFacts := {}
  deriving Inhabited, Repr

/-- Whether the parameter `name` is assigned into a field by the method's body. -/
def MethodDecl.stores (method : MethodDecl) (name : String) : Bool :=
  method.body.fieldAssignments.any fun a =>
    match a.source with
    | .parameter p => p == name
    | _ => false

/-- Whether `name` is a parameter of the method. -/
def MethodDecl.hasParam (method : MethodDecl) (name : String) : Bool :=
  method.params.any fun p => p.name == name

/-- How a type names one of its supertypes. -/
inductive SupertypeKind where
  | «extends»
  | implements
  deriving DecidableEq, Inhabited, Repr

/-- A supertype as declared. -/
structure Supertype where
  type : TypeRef
  kind : SupertypeKind
  deriving Inhabited, Repr

/-- A class-like declaration. -/
structure ClassDecl where
  /-- The qualified name. -/
  name : String
  kind : DeclKind
  fields : List FieldDecl := []
  constructors : List MethodDecl := []
  methods : List MethodDecl := []
  supertypes : List Supertype := []
  /-- Qualified names imported where the type is declared. -/
  imports : List String := []
  location : Option SourceLocation := none
  deriving Inhabited, Repr

namespace ClassDecl

/-- The name without its package. -/
def simpleName (decl : ClassDecl) : String :=
  Dotted.simpleName decl.name

/-- The package of the declaration, if its name has one. -/
def package? (decl : ClassDecl) : Option String :=
  Dotted.package? decl.name

/-- The first field called `name`. -/
def field? (decl : ClassDecl) (name : String) : Option FieldDecl :=
  decl.fields.find? fun f => f.name == name

/-- Constructors, then methods. -/
def callables (decl : ClassDecl) : List MethodDecl :=
  decl.constructors ++ decl.methods

end ClassDecl

end ClassDiagram
