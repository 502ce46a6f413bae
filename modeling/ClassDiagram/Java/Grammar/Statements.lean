import ClassDiagram.Java.Grammar.Expressions

/-!
# Statements

A statement that begins like a type followed by a name declares local variables; this
reading is tried before any expression. A word that is a keyword only in its place, such as
`yield` or `record`, is first tried as the identifier it also is, where both would do.
-/

namespace ClassDiagram.Java.Grammar

open ClassDiagram.Java.Parser

/-- A declared variable: a name, brackets and a value. -/
def declarator (r : Rules) : Parser Declarator := do
  let name ← identifier
  let (n, notes) ← orDefault (0, []) (dimensions r)
  let value ← optionally (do
    skip "="
    r.value)
  return .mk name.text n notes value

/-- A declaration of local variables, its semicolon included. -/
def localVariables (r : Rules) : Parser Code := do
  let (_, notes) ← modifiers r
  let node ← plainType r
  let declarators ← separated1 "," (declarator r)
  skip ";"
  return .locals (notes ++ node.notes) node.type declarators

/-- An expression in parentheses, as it follows a keyword. -/
def condition (r : Rules) : Parser Code := do
  skip "("
  let e ← r.expression
  skip ")"
  return e

/-- A conditional statement. -/
def ifStatement (r : Rules) : Parser Code := do
  skip "if"
  let test ← condition r
  let yes ← r.statement
  let no ← optionally (do
    skip "else"
    r.statement)
  return .group (test :: yes :: no.toList)

/-- A loop with its test first. -/
def whileStatement (r : Rules) : Parser Code := do
  skip "while"
  let test ← condition r
  return .group [test, ← r.statement]

/-- A loop with its test last. -/
def doStatement (r : Rules) : Parser Code := do
  skip "do"
  let body ← r.statement
  skip "while"
  let test ← condition r
  skip ";"
  return .group [body, test]

/-- A loop over the elements of a collection. -/
def forEachStatement (r : Rules) : Parser Code := do
  skip "for"
  skip "("
  let (_, notes) ← modifiers r
  let node ← plainType r
  let name ← identifier
  let (_, dimNotes) ← orDefault (0, []) (dimensions r)
  skip ":"
  let values ← r.expression
  skip ")"
  let body ← r.statement
  return .forEach (notes ++ node.notes ++ dimNotes) node.type name.text [values, body]

/-- A loop with a beginning, a test and a step. -/
def forStatement (r : Rules) : Parser Code := do
  skip "for"
  skip "("
  let start ← (do return [← localVariables r]) <|> (do
    let es ← separated "," r.expression
    skip ";"
    return es)
  let test ← optionally r.expression
  skip ";"
  let steps ← separated "," r.expression
  skip ")"
  let body ← r.statement
  return .group (start ++ test.toList ++ steps ++ [body])

/-- A resource of a `try`: a declaration, or a name or field in use already. -/
def resource (r : Rules) : Parser (List Code) :=
  (do
    let (_, notes) ← modifiers r
    let node ← plainType r
    let _ ← identifier
    let (_, dimNotes) ← orDefault (0, []) (dimensions r)
    skip "="
    let value ← r.expression
    return notes ++ node.notes ++ dimNotes ++ [value])
  <|> (do return [← r.expression])

/-- The resources of a `try`. -/
def resources (r : Rules) : Parser (List Code) := do
  skip "("
  let rs ← separated1 ";" (resource r)
  let _ ← accepts (skip ";")
  skip ")"
  return rs.flatten

/-- A handler of exceptions. -/
def catchClause (r : Rules) : Parser (List Code) := do
  skip "catch"
  skip "("
  let (_, notes) ← modifiers r
  let types ← separated1 "|" (plainType r)
  let _ ← identifier
  let (_, dimNotes) ← orDefault (0, []) (dimensions r)
  skip ")"
  let body ← block r
  return notes ++ types.flatMap (·.notes) ++ dimNotes ++ body

/-- A `try` with resources, handlers and a last part. -/
def tryStatement (r : Rules) : Parser Code := do
  skip "try"
  let opened ← orDefault [] (resources r)
  let body ← block r
  let handlers ← many (catchClause r)
  let last ← orDefault [] (do
    skip "finally"
    block r)
  return .group (opened ++ body ++ handlers.flatten ++ last)

/-- A keyword, perhaps an expression, and a semicolon. -/
def jump (r : Rules) (keyword : String) : Parser Code := do
  skip keyword
  let value ← optionally r.expression
  skip ";"
  return .group value.toList

/-- A statement under a lock. -/
def synchronizedStatement (r : Rules) : Parser Code := do
  skip "synchronized"
  let lock ← condition r
  let body ← block r
  return .group (lock :: body)

/-- An assertion, with or without a message. -/
def assertStatement (r : Rules) : Parser Code := do
  skip "assert"
  let test ← r.expression
  let message ← optionally (do
    skip ":"
    r.expression)
  skip ";"
  return .group (test :: message.toList)

/-- A statement with a label. -/
def labeledStatement (r : Rules) : Parser Code := do
  let _ ← identifier
  skip ":"
  r.statement

/-- An expression as a statement. -/
def expressionStatement (r : Rules) : Parser Code := do
  let e ← r.expression
  skip ";"
  return .group [e]

/-- A `break` or `continue`, perhaps with a label. -/
def leave (keyword : String) : Parser Code := do
  skip keyword
  let _ ← optionally identifier
  skip ";"
  return .group []

/-- The declaration of an annotation type, which is passed over. -/
def markDeclaration (r : Rules) : Parser Unit := do
  let _ ← modifiers r
  skip "@"
  skip "interface"
  let _ ← identifier
  skipBalanced "\x7b"

/-- A statement that begins with an identifier, a modifier or the name of a type. -/
def plainStatement (r : Rules) : Parser Code :=
  (do return .declare (← r.declaration))
  <|> (do markDeclaration r; return .group [])
  <|> localVariables r
  <|> labeledStatement r
  <|> expressionStatement r
  <|> jump r "yield"

/-- The statements that a keyword or symbol of their own begins. -/
def statementRules (r : Rules) : List (String × Parser Code) :=
  [("\x7b", do return .group (← block r)),
   (";", do skip ";"; return .group []),
   ("if", ifStatement r),
   ("while", whileStatement r),
   ("do", doStatement r),
   ("for", forEachStatement r <|> forStatement r),
   ("try", tryStatement r),
   ("switch", switchRule r),
   ("synchronized", synchronizedStatement r),
   ("assert", assertStatement r),
   ("return", jump r "return"),
   ("throw", jump r "throw"),
   ("break", leave "break"),
   ("continue", leave "continue")]

/-- A statement. -/
def statementRule (r : Rules) : Parser Code := do
  match (← peek).bind fun t => (statementRules r).lookup t.text with
  | some rule => rule <|> plainStatement r
  | none => plainStatement r

end ClassDiagram.Java.Grammar
