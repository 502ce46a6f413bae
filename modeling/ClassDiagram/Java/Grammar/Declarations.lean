import ClassDiagram.Java.Grammar.Statements

/-!
# Members, types and source files

A member or top-level item that cannot be read is passed over up to its semicolon or the end
of its block, and reading goes on after it.
-/

namespace ClassDiagram.Java.Grammar

open ClassDiagram.Java.Parser

/-- The exceptions a constructor or method may throw. -/
def throwsClause (r : Rules) : Parser Unit := do
  skip "throws"
  let _ ← typeList r

/-- The call of another constructor at the beginning of a constructor. -/
def constructorCall (r : Rules) : Parser Code := do
  let typeArgs ← orDefault [] (do return (← typeArguments r).2)
  let call ← (do
      let toThis ← (do skip "this"; return true) <|> (do skip "super"; return false)
      let args ← arguments r
      return Code.delegate toThis typeArgs args)
    <|> (do
      let outer ← r.operand
      skip "."
      let notes ← orDefault [] (do return (← typeArguments r).2)
      skip "super"
      let args ← arguments r
      return Code.delegate false (outer :: notes) args)
  skip ";"
  return call

/-- The body of a constructor. -/
def constructorBody (r : Rules) : Parser (List Code) := do
  skip "\x7b"
  let call ← optionally (constructorCall r)
  let statements ← many (recovering r.statement)
  skip "\x7d"
  return call.toList ++ statements.filterMap id

/-- What follows the modifiers and type parameters of a constructor. -/
def constructorRest (r : Rules) (ms : List Modifier) : Parser Member := do
  let name ← identifier
  let (params, _) ← parameters r
  let _ ← accepts (throwsClause r)
  return .constructor ms name.text params (← constructorBody r)

/-- What follows the name of a method. -/
def methodRest (r : Rules) (ms : List Modifier) (type : TypeExpr) (name : String) :
    Parser Member := do
  let (params, _) ← parameters r
  let _ ← optionally (dimensions r)
  let _ ← accepts (throwsClause r)
  let body ← (do skip ";"; return none) <|> (do return some (← block r))
  return .method ms type name params body

/-- A method with its modifiers. -/
def methodDeclaration (r : Rules) : Parser Member := do
  let (ms, _) ← modifiers r
  let _ ← optionally (do
    typeParameters r
    marks r)
  let node ← plainType r
  let name ← identifier
  methodRest r ms node.type name.text

/-- A field declaration. -/
def fieldDeclaration (r : Rules) : Parser Member := do
  let (ms, _) ← modifiers r
  let node ← plainType r
  let declarators ← separated1 "," (declarator r)
  skip ";"
  return .field ms node.type declarators

/-- A constructor with its modifiers. -/
def constructorDeclaration (r : Rules) : Parser Member := do
  let (ms, _) ← modifiers r
  let _ ← accepts (typeParameters r)
  constructorRest r ms

/-- The constructor of a record without parameters of its own, which is passed over. -/
def compactConstructor (r : Rules) : Parser Unit := do
  let _ ← modifiers r
  let _ ← identifier
  skipBalanced "\x7b"

/-- An initializer block, which is passed over. -/
def initializerBlock : Parser Unit := do
  let _ ← accepts (skip "static")
  skipBalanced "\x7b"

/-- A member that declares something, or nothing for one that does not. -/
def member (r : Rules) : Parser (Option Member) :=
  (do skip ";"; return none)
  <|> (do initializerBlock; return none)
  <|> (do return some (.nested (← r.declaration)))
  <|> (do markDeclaration r; return none)
  <|> (do return some (← constructorDeclaration r))
  <|> (do compactConstructor r; return none)
  <|> (do return some (← methodDeclaration r))
  <|> (do return some (← fieldDeclaration r))

/-- Members up to a closing brace, which stays. -/
def members (r : Rules) : Parser (List Member) := do
  let ms ← many (recovering (member r))
  return ms.filterMap fun m => m.bind id

/-- The members of a type, in braces. -/
def classBodyRule (r : Rules) : Parser (List Member) := do
  skip "\x7b"
  let ms ← members r
  skip "\x7d"
  return ms

/-- Passes over the constants of an enum, up to a semicolon, which is taken, or the closing
brace, which stays. -/
def skipConstants : Nat → List Token → Option (List Token)
  | 0, _ => none
  | _ + 1, [] => none
  | fuel + 1, t :: rest =>
    if t.text == ";" then some rest
    else if t.text == "\x7d" then some (t :: rest)
    else if ["(", "[", "\x7b"].contains t.text then
      (skipToClose 0 rest).bind (skipConstants fuel)
    else skipConstants fuel rest

/-- The members of an enum after its constants. -/
def enumBody (r : Rules) : Parser (List Member) := do
  skip "\x7b"
  set (← (skipConstants ((← get).length + 1) (← get) : Option (List Token)))
  let ms ← members r
  skip "\x7d"
  return ms

/-- Supertypes after a keyword. -/
def supertypes (r : Rules) (keyword : String) (kind : SupertypeKind) :
    Parser (List (SupertypeKind × TypeExpr)) :=
  orDefault [] (do
    skip keyword
    return (← typeList r).map fun node => (kind, node.type))

/-- The types that may extend a sealed type, which are passed over. -/
def permits (r : Rules) : Parser Unit := do
  let _ ← optionally (do
    skip "permits"
    typeList r)

/-- A class. -/
def classDeclaration (r : Rules) (ms : List Modifier) : Parser TypeDecl := do
  skip "class"
  let name ← identifier
  let _ ← accepts (typeParameters r)
  let parent ← supertypes r "extends" .extends
  let interfaces ← supertypes r "implements" .implements
  permits r
  let body ← r.classBody
  return .mk ⟨.class, ms, name.text, name.line, name.column, parent ++ interfaces, []⟩ body

/-- An interface. -/
def interfaceDeclaration (r : Rules) (ms : List Modifier) : Parser TypeDecl := do
  skip "interface"
  let name ← identifier
  let _ ← accepts (typeParameters r)
  let parents ← supertypes r "extends" .extends
  permits r
  let body ← r.classBody
  return .mk ⟨.interface, ms, name.text, name.line, name.column, parents, []⟩ body

/-- An enum. -/
def enumDeclaration (r : Rules) (ms : List Modifier) : Parser TypeDecl := do
  skip "enum"
  let name ← identifier
  let interfaces ← supertypes r "implements" .implements
  let body ← enumBody r
  return .mk ⟨.enum, ms, name.text, name.line, name.column, interfaces, []⟩ body

/-- A record. -/
def recordDeclaration (r : Rules) (ms : List Modifier) : Parser TypeDecl := do
  skip "record"
  let name ← identifier
  let _ ← accepts (typeParameters r)
  let (components, _) ← parameters r
  let interfaces ← supertypes r "implements" .implements
  let body ← r.classBody
  return .mk ⟨.record, ms, name.text, name.line, name.column, interfaces, components⟩ body

/-- A type declaration with its modifiers. -/
def declarationRule (r : Rules) : Parser TypeDecl := do
  let (ms, _) ← modifiers r
  classDeclaration r ms <|> interfaceDeclaration r ms <|> enumDeclaration r ms
    <|> recordDeclaration r ms

/-! ## Source files -/

/-- An item at the top level of a file. -/
inductive Item where
  | package (name : String)
  /-- An import that names a type, or the types of a package. -/
  | «import» (path : String)
  | type (decl : TypeDecl)
  /-- A static import, a module, an annotation type, a method or a statement. -/
  | other

/-- A package declaration. The name is the text as it was written. -/
def packageDeclaration (r : Rules) : Parser Item := do
  let _ ← marks r
  skip "package"
  let name ← dottedName
  skip ";"
  return .package name

/-- An import. The path is the text as it was written; an import on demand ends in a dot and
an asterisk. -/
def importDeclaration : Parser Item := do
  skip "import"
  let static ← accepts (skip "static")
  let path ← dottedName
  let onDemand ← accepts (do
    skip "."
    skip "*")
  skip ";"
  if static then return .other
  return .import (if onDemand then path ++ ".*" else path)

/-- A module declaration, which is passed over. -/
def moduleDeclaration (r : Rules) : Parser Item := do
  let _ ← marks r
  let _ ← accepts (skip "open")
  skip "module"
  let _ ← dottedName
  skipBalanced "\x7b"
  return .other

/-- An item at the top level. -/
def item (r : Rules) : Parser Item :=
  packageDeclaration r
  <|> importDeclaration
  <|> moduleDeclaration r
  <|> (do return .type (← r.declaration))
  <|> (do markDeclaration r; return .other)
  <|> (do let _ ← methodDeclaration r; return .other)
  <|> (do let _ ← r.statement; return .other)

/-- The items of a file. A closing brace without an opening one is passed over. -/
def items (r : Rules) : Parser (List Item) := do
  let found ← many (recovering (item r) <|> (do skip "\x7d"; return none))
  return found.filterMap id

end ClassDiagram.Java.Grammar
