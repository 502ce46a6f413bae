import ClassDiagram.Java.Grammar.Types

/-!
# Expressions

Operators are read without regard to their precedence: however they group, their operands
stand in the same order, and nothing else about them is kept. Three readings of a
parenthesis are told apart by what follows it: a lambda by its arrow, a cast by an operand,
and anything else is an expression in parentheses.
-/

namespace ClassDiagram.Java.Grammar

open ClassDiagram.Java.Parser

/-- Arguments in parentheses. -/
def arguments (r : Rules) : Parser (List Code) := do
  skip "("
  let args ← separated "," r.expression
  skip ")"
  return args

/-- Values in braces, with or without a comma after the last one. -/
def braced (r : Rules) : Parser Code := do
  skip "\x7b"
  let values ← separated "," r.value
  let _ ← accepts (skip ",")
  skip "\x7d"
  return .group values

/-- The value of a variable or of an annotation. -/
def valueRule (r : Rules) : Parser Code :=
  braced r <|> r.expression <|> (do return .group (← r.mark).notes)

/-- The dimensions of a created array: lengths in brackets first, empty brackets after. -/
def arrayLengths (r : Rules) : Parser (List Code) := do
  let lengths ← many (do
    let notes ← marks r
    skip "["
    let length ← r.expression
    skip "]"
    return notes ++ [length])
  let empty ← orDefault (0, []) (dimensions r)
  if lengths.isEmpty && empty.1 == 0 then failure
  return lengths.flatten ++ empty.2

/-- What follows `new`: an object with arguments and perhaps a class body, or an array. -/
def creation (r : Rules) (before : List Code) : Parser Code := do
  skip "new"
  let first ← marks r
  let typeArgs ← orDefault [] (do return (← typeArguments r).2)
  let second ← marks r
  let node ← simpleType r
  let parts := before ++ first ++ typeArgs ++ second ++ node.notes
  if ← at? "(" then
    let args ← arguments r
    let body ← orDefault [] r.classBody
    return .create parts node.type args body
  else
    let lengths ← arrayLengths r
    let values ← optionally (braced r)
    return .group (parts ++ lengths ++ values.toList)

/-- A statement block. -/
def block (r : Rules) : Parser (List Code) := do
  skip "\x7b"
  let statements ← many (recovering r.statement)
  skip "\x7d"
  return statements.filterMap id

/-- A parameter, or the receiver, which is none. -/
def parameter (r : Rules) : Parser (Option Param × List Code) := do
  let (_, notes) ← modifiers r
  let node ← plainType r
  let notes := notes ++ node.notes
  if ← accepts (skip "this") then return (none, notes)
  if ← accepts (skip "...") then
    let more ← marks r
    let name ← identifier
    let (_, dimNotes) ← orDefault (0, []) (dimensions r)
    return (some ⟨name.text, node.type, 0, true⟩, notes ++ more ++ dimNotes)
  let name ← identifier
  if ← at? "." then
    let _ ← many (do skip "."; identifier)
    skip "."
    skip "this"
    return (none, notes)
  let (n, dimNotes) ← orDefault (0, []) (dimensions r)
  return (some ⟨name.text, node.type, n, false⟩, notes ++ dimNotes)

/-- Parameters in parentheses. -/
def parameters (r : Rules) : Parser (List Param × List Code) := do
  skip "("
  let ps ← separated "," (parameter r)
  skip ")"
  return (ps.filterMap (·.1), ps.flatMap (·.2))

/-- The parameters of a lambda: one name, names in parentheses, or full parameters. Only the
expressions inside annotations are kept. -/
def lambdaParameters (r : Rules) : Parser (List Code) :=
  (do let _ ← identifier; return [])
  <|> (do skip "("; let _ ← separated "," identifier; skip ")"; return [])
  <|> (do return (← parameters r).2)

/-- A lambda. -/
def lambda (r : Rules) : Parser Code := do
  let notes ← lambdaParameters r
  skip "->"
  let body ← (do return Code.group (← block r)) <|> r.expression
  return .group (notes ++ [body])

/-- Whether the tokens begin with a name, or a pair of parentheses, before an arrow. -/
def beginsLambda : Parser Bool := do
  match ← get with
  | t :: rest =>
    if t.text == "(" then return (skipToClose 0 rest).any fun r => r.head?.any (·.text == "->")
    else return rest.head?.any (·.text == "->")
  | [] => return false

/-- Whether an operand that is no signed number may begin with this token. -/
def startsOperand (t : Token) : Bool :=
  t.kind == .literal
    || (t.kind == .word
        && (!keywords.contains t.text || primitiveNames.contains t.text
          || ["this", "super", "new", "switch", "true", "false", "null", "void"].contains t.text))
    || ["(", "!", "~"].contains t.text

/-- Whether the tokens after a parenthesis that holds a type make it a cast. A name in
parentheses could as well be a value; it is a cast if an operand follows, signed or not. -/
def castFollows (type : TypeExpr) : Parser Bool := do
  match ← get with
  | t :: rest =>
    if startsOperand t then return true
    if ["+", "-"].contains t.text then return true
    if ["++", "--"].contains t.text then
      match type with
      | .simple _ | .scoped _ => return rest.head?.any startsOperand
      | _ => return true
    return false
  | [] => return false

/-- A cast. -/
def cast (r : Rules) : Parser Code := do
  skip "("
  let types ← separated1 "&" r.type
  skip ")"
  let type := match types with
    | [t] => t.type
    | _ => .unbounded
  if ← castFollows type then
    let value ← r.operand
    return .group (types.flatMap (·.notes) ++ [value])
  else failure

/-- An expression in parentheses. -/
def parenthesized (r : Rules) : Parser Code := do
  skip "("
  let e ← r.expression
  skip ")"
  return .group [e]

/-- A type where an expression is expected: before `::` or `.class`. A plain name, or one with
dots but without type arguments, is left to be read as an expression. -/
def typeLiteral (r : Rules) : Parser Code := do
  let node ← plainType r
  match node.type with
  | .simple name => if primitiveNames.contains name then pure () else failure
  | .scoped name => if name.toList.contains '<' then pure () else failure
  | _ => pure ()
  if ← at? "::" then return .group node.notes
  skip "."
  skip "class"
  return .group node.notes

/-! ## Patterns and switches -/

/-- A name for the value that a pattern matches. -/
def patternName : Parser Unit := do
  let _ ← takeIf fun t => t.kind == .word && !keywords.contains t.text && t.text != "when"

/-- A type pattern: a type and a name for the value. -/
def typePattern (r : Rules) : Parser (List Code) := do
  let (_, notes) ← modifiers r
  let node ← plainType r
  patternName
  return notes ++ node.notes

/-- A record pattern: a type and the patterns for its components. -/
def recordPatternRule (r : Rules) : Parser (List Code) := do
  let node ← plainType r
  skip "("
  let parts ← separated "," (
    r.recordPattern <|> typePattern r <|> (do skip "_"; return []))
  skip ")"
  let _ ← accepts patternName
  return node.notes ++ parts.flatten

/-- The ends of a pattern or expression in a case label. -/
def caseEnds : List String :=
  ["->", ":", ",", "when"]

/-- Reads with `p` and makes sure that the label goes on or ends after it. -/
def inCase {α : Type} (p : Parser α) : Parser α := do
  let a ← p
  let next ← peek
  if next.any fun t => caseEnds.contains t.text then return a else failure

/-- The label of a case or the default of a switch, its arrow or colon included. -/
def switchLabel (r : Rules) : Parser (List Code) := do
  let parts ← (do skip "default"; return []) <|> (do
    skip "case"
    let items ← separated1 "," (
      (do skip "default"; return [])
      <|> inCase r.recordPattern
      <|> inCase (typePattern r)
      <|> (do return [← r.caseExpression]))
    let guard ← optionally (do
      skip "when"
      r.caseExpression)
    return items.flatten ++ guard.toList)
  skip "->" <|> skip ":"
  return parts

/-- A switch: the value, and the labels and statements of its block in their order. -/
def switchRule (r : Rules) : Parser Code := do
  skip "switch"
  skip "("
  let value ← r.expression
  skip ")"
  skip "\x7b"
  let parts ← many (switchLabel r <|> (do return (← recovering r.statement).toList))
  skip "\x7d"
  return .group (value :: parts.flatten)

/-! ## Operands and operators -/

/-- The binary operators, those with a closing angle bracket apart. -/
def binaryOperators : List String :=
  ["||", "&&", "|", "^", "&", "==", "!=", "<", "<=", "<<", "+", "-", "*", "/", "%"]

/-- A binary operator. Closing angle brackets without a gap between them make one operator,
and an equals sign after a single one belongs to it. -/
def binaryOperator : Parser Unit :=
  (do let _ ← takeIf fun t => t.kind == .symbol && binaryOperators.contains t.text)
  <|> (do
    skip ">"
    if ← accepts (adjacent "=") then return
    let _ ← optionally (do
      adjacent ">"
      optionally (adjacent ">"))
    if ← accepts (adjacent "=") then failure)

/-- The assignment operators, those with a closing angle bracket apart. -/
def assignmentOperators : List String :=
  ["=", "+=", "-=", "*=", "/=", "%=", "&=", "|=", "^=", "<<="]

/-- An assignment operator. -/
def assignmentOperator : Parser Unit :=
  (do let _ ← takeIf fun t => t.kind == .symbol && assignmentOperators.contains t.text)
  <|> (do
    skip ">"
    adjacent ">"
    let _ ← optionally (adjacent ">")
    adjacent "=")

/-- The signs that may stand before an operand. -/
def signs : List String :=
  ["+", "-", "!", "~", "++", "--"]

/-- An operand without its signs and without what is applied to it. Where `arrows` is off,
an arrow after a name or parenthesis does not make a lambda: it ends a case label. -/
def primary (r : Rules) (arrows : Bool) : Parser Code := do
  if arrows then
    if ← beginsLambda then
      if let some e ← optionally (lambda r) then return e
  match ← peek with
  | none => failure
  | some t =>
    if t.kind == .literal || ["true", "false", "null"].contains t.text then
      skip t.text
      return .group []
    else if t.text == "this" then
      skip "this"
      return .this
    else if t.text == "super" then
      skip "super"
      return .group []
    else if t.text == "new" then creation r []
    else if t.text == "(" then cast r <|> parenthesized r
    else if t.text == "switch" then switchRule r
    else
      typeLiteral r <|> (do
        let name ← identifier
        if ← at? "(" then return .invoke name.text (← arguments r)
        return .name name.text)

/-- What follows a dot after `e`: a class literal, a creation inside `e`, the enclosing object,
a member of a supertype, a call, a member, or a template. -/
def afterDot (r : Rules) (e : Code) : Parser Code :=
  (do skip "class"; return .group [])
  <|> creation r [e]
  <|> (do skip "this"; return .access e "this")
  <|> (do
    skip "super"
    if ← at? "::" then return .group [e]
    skip "."
    let notes ← orDefault [] (do return (← typeArguments r).2)
    let name ← identifier
    if ← at? "(" then return .call e notes name.text (← arguments r)
    return .access e name.text)
  <|> (do
    let (_, notes) ← typeArguments r
    let name ← identifier
    return .call e notes name.text (← arguments r))
  <|> (do
    let name ← identifier
    if ← at? "(" then return .call e [] name.text (← arguments r)
    return .access e name.text)
  <|> (do let _ ← takeIf (·.kind == .literal); return .group [e])

/-- One thing applied to `e`: a member, an index, a step, or a method reference. -/
def suffix (r : Rules) (e : Code) : Parser Code :=
  (do skip "."; afterDot r e)
  <|> (do
    skip "["
    let i ← r.expression
    skip "]"
    return .group [e, i])
  <|> (do skip "++" <|> skip "--"; return .group [e])
  <|> (do
    skip "::"
    let notes ← orDefault [] (do return (← typeArguments r).2)
    skip "new" <|> (do let _ ← identifier)
    return .group (e :: notes))

/-- Everything applied to `e`, in its order, at most `fuel` things. -/
def suffixes (r : Rules) : Nat → Code → Parser Code
  | 0, e => pure e
  | fuel + 1, e => do
    match ← optionally (suffix r e) with
    | some longer => suffixes r fuel longer
    | none => return e

/-- An operand with its signs and all that is applied to it. -/
def signed (r : Rules) (arrows : Bool) : Parser Code := do
  let before ← many (takeIf fun t => t.kind == .symbol && signs.contains t.text)
  let e ← primary r arrows
  let e ← suffixes r (← get).length e
  return if before.isEmpty then e else .group [e]

/-- What `instanceof` compares with: a record pattern, or a type and perhaps a name. -/
def instanceTest (r : Rules) : Parser (List Code) := do
  skip "instanceof"
  let (_, notes) ← modifiers r
  (do return notes ++ (← r.recordPattern))
  <|> (do
    let node ← plainType r
    let _ ← accepts patternName
    return notes ++ node.notes)

/-- Operands with operators between them. A single operand stands for itself. -/
def chain (r : Rules) (arrows : Bool) : Parser Code := do
  let first ← signed r arrows
  let more ← many (
    (do binaryOperator; return [← signed r arrows])
    <|> instanceTest r)
  return if more.isEmpty then first else .group (first :: more.flatten)

/-- An expression without binary operators. -/
def operandRule (r : Rules) : Parser Code :=
  signed r true

/-- An expression in a case label. -/
def caseExpressionRule (r : Rules) : Parser Code :=
  chain r false

/-- An expression: operands and operators, an assignment, or a choice. -/
def expressionRule (r : Rules) : Parser Code := do
  let first ← chain r true
  if ← accepts (skip "?") then
    let yes ← r.expression
    skip ":"
    let no ← r.expression
    return .group [first, yes, no]
  if ← accepts assignmentOperator then
    return .assign first (← r.expression)
  return first

end ClassDiagram.Java.Grammar
