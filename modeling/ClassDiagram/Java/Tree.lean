import ClassDiagram.Declaration

/-!
# Syntax trees of Java

A tree keeps what can matter for a class diagram. Types are kept as they are written;
statements and expressions are kept as far as they name, access, call, create, assign or
declare something, and everything else becomes a plain sequence of its parts in the order
of the source. The bodies of local and anonymous classes are kept as well.
-/

namespace ClassDiagram.Java

/-- A type as it is written. -/
inductive TypeExpr where
  /-- No type at all: the result of a method that has none. -/
  | void
  /-- A primitive type or a single identifier. -/
  | simple (name : String)
  /-- A dotted name, as the text it was written as. -/
  | scoped (text : String)
  /-- A name, as the text it was written as, with type arguments. -/
  | generic (base : String) (args : List TypeExpr)
  | array (element : TypeExpr) (dimensions : Nat)
  /-- A `?` alone. -/
  | unbounded
  /-- A bounded `? extends T` or `? super T`. -/
  | bounded (bound : TypeExpr)
  deriving Inhabited, Repr

/-- What stands before a declaration. -/
inductive Modifier where
  | visibility (v : Visibility)
  | static
  | final
  | abstract
  | default
  /-- An annotation `@Name`, by the text of the name. -/
  | mark (name : String)
  | other
  deriving DecidableEq, Inhabited, Repr

/-- A parameter as it is written. -/
structure Param where
  name : String
  type : TypeExpr
  /-- The brackets after the name. -/
  dimensions : Nat
  /-- Whether three dots follow the type. -/
  variadic : Bool
  deriving Inhabited, Repr

/-- The keyword with which a type is declared. -/
inductive TypeKeyword where
  | «class»
  | interface
  | enum
  | record
  deriving DecidableEq, Inhabited, Repr

/-- What a type declaration says before its body. -/
structure TypeHead where
  keyword : TypeKeyword
  modifiers : List Modifier
  name : String
  line : Nat
  column : Nat
  supertypes : List (SupertypeKind × TypeExpr)
  /-- The components of a record; none for other types. -/
  components : List Param
  deriving Inhabited, Repr

mutual

/-- A statement or expression. Parts stand in the order of the source. The `notes` of a
node are the expressions inside annotations that belong to it. -/
inductive Code where
  /-- An identifier standing for a value. -/
  | name (text : String)
  /-- The current object. -/
  | this
  /-- An access `object.member`. -/
  | access (object : Code) (member : String)
  /-- A call `name(args)`. -/
  | invoke (name : String) (args : List Code)
  /-- A call `receiver.name(args)`. -/
  | call (receiver : Code) (notes : List Code) (name : String) (args : List Code)
  /-- A creation `new Type(args)`, with what stands before the type and the members of an
  anonymous class, if one follows. -/
  | create (before : List Code) (type : TypeExpr) (args : List Code) (body : List Member)
  /-- An assignment, simple or compound. -/
  | assign (target value : Code)
  /-- A declaration of local variables of one type. -/
  | locals (notes : List Code) (type : TypeExpr) (declarators : List Declarator)
  /-- A loop `for (Type name : …) …`. -/
  | forEach (notes : List Code) (type : TypeExpr) (name : String) (parts : List Code)
  /-- A call `this(args);` or `super(args);` at the beginning of a constructor. -/
  | delegate (toThis : Bool) (before : List Code) (args : List Code)
  /-- A local type declaration. -/
  | declare (decl : TypeDecl)
  /-- Anything else. -/
  | group (parts : List Code)

/-- A declared variable: its name, the brackets after it and its value. -/
inductive Declarator where
  | mk (name : String) (dimensions : Nat) (notes : List Code) (value : Option Code)

/-- A member of a type. Initializer blocks and members that declare no field, constructor,
method or type are left out. -/
inductive Member where
  | field (modifiers : List Modifier) (type : TypeExpr) (declarators : List Declarator)
  | constructor (modifiers : List Modifier) (name : String) (params : List Param)
      (body : List Code)
  /-- A method; `body` is missing for one that only ends in a semicolon. -/
  | method (modifiers : List Modifier) (type : TypeExpr) (name : String) (params : List Param)
      (body : Option (List Code))
  | nested (decl : TypeDecl)

/-- A declaration of a type. -/
inductive TypeDecl where
  | mk (head : TypeHead) (members : List Member)

end

/-- The name of a declared variable. -/
def Declarator.name : Declarator → String
  | .mk name _ _ _ => name

/-- The brackets after the name of a declared variable. -/
def Declarator.dimensions : Declarator → Nat
  | .mk _ dimensions _ _ => dimensions

/-- The value of a declared variable, if it has one. -/
def Declarator.value? : Declarator → Option Code
  | .mk _ _ _ value => value

/-- What a type declaration says before its body. -/
def TypeDecl.head : TypeDecl → TypeHead
  | .mk head _ => head

/-- The members of a declared type. -/
def TypeDecl.members : TypeDecl → List Member
  | .mk _ members => members

instance : Inhabited Code := ⟨.group []⟩
instance : Inhabited TypeDecl := ⟨.mk default []⟩
instance : Inhabited Member := ⟨.nested default⟩

/-- A source file: its package, its imports, and the types at its top level. -/
structure CompilationUnit where
  package? : Option String
  imports : List String
  types : List TypeDecl
  deriving Inhabited

end ClassDiagram.Java
