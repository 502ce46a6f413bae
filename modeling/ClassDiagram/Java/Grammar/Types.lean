import ClassDiagram.Java.Parser

/-!
# Annotations, modifiers and types

Annotations may stand nearly anywhere in a type. Their own names and values play no part
in the type, but the expressions in them are handed on as notes.
-/

namespace ClassDiagram.Java.Grammar

open ClassDiagram.Java.Parser

/-- A pair `name = value` inside an annotation. -/
def markPair (r : Rules) : Parser Code := do
  let _ ← identifier
  skip "="
  r.value

/-- The values in the parentheses of an annotation. -/
def markArguments (r : Rules) : Parser (List Code) := do
  skip "("
  let values ← separated1 "," (markPair r) <|> orDefault [] (do return [← r.value])
  skip ")"
  return values

/-- An annotation. -/
def markRule (r : Rules) : Parser Mark := do
  skip "@"
  let name ← dottedName
  let notes ← orDefault [] (markArguments r)
  return ⟨name, notes⟩

/-- Any number of annotations; only the expressions in them are kept. -/
def marks (r : Rules) : Parser (List Code) := do
  return (← many r.mark).flatMap (·.notes)

/-- The modifiers that are single keywords. -/
def keywordModifiers : List (String × Modifier) :=
  [("public", .visibility .public), ("protected", .visibility .protected),
   ("private", .visibility .private), ("static", .static), ("final", .final),
   ("abstract", .abstract), ("default", .default), ("strictfp", .other),
   ("synchronized", .other), ("native", .other), ("transient", .other), ("volatile", .other)]

/-- A modifier that is a keyword. -/
def keywordModifier : Parser Modifier := fun ts =>
  match ts with
  | t :: rest => (keywordModifiers.lookup t.text).map fun m => (m, rest)
  | [] => none

/-- The words that may follow `sealed` and `non-sealed`. -/
def afterSealed : List String :=
  ["class", "interface", "@"] ++ keywordModifiers.map (·.1)

/-- The words `sealed` or `non-sealed` before a type declaration. -/
def sealedModifier : Parser Modifier := do
  (do skip "non"; adjacent "-"; adjacent "sealed") <|> skip "sealed"
  let next ← peek
  if next.any fun t => afterSealed.contains t.text then return .other else failure

/-- A modifier with the expressions inside it. -/
def modifier (r : Rules) : Parser (Modifier × List Code) :=
  (do return (← keywordModifier, []))
  <|> (do let m ← r.mark; return (.mark m.name, m.notes))
  <|> (do return (← sealedModifier, []))

/-- Any number of modifiers, and the expressions inside them. -/
def modifiers (r : Rules) : Parser (List Modifier × List Code) := do
  let ms ← many (modifier r)
  return (ms.map (·.1), ms.flatMap (·.2))

/-- Brackets after a type or name. Their number is that of the opening brackets in their
text. -/
def dimensions (r : Rules) : Parser (Nat × List Code) := do
  let (notes, taken) ← spanned (many1 (do
    let notes ← marks r
    skip "["
    skip "]"
    return notes))
  return ((spanText taken).toList.count '[', notes.flatten)

/-- A type argument: a type, or a wildcard with or without a bound. -/
def typeArgument (r : Rules) : Parser TypeNode :=
  (do
    let before ← marks r
    skip "?"
    let bound ← optionally (do
      skip "extends" <|> skip "super"
      r.type)
    match bound with
    | some b => return ⟨.bounded b.type, before ++ b.notes⟩
    | none => return ⟨.unbounded, before⟩)
  <|> r.type

/-- Type arguments in angle brackets. -/
def typeArguments (r : Rules) : Parser (List TypeExpr × List Code) := do
  skip "<"
  let args ← separated "," (typeArgument r)
  skip ">"
  return (args.map (·.type), args.flatMap (·.notes))

/-- What may follow a class type that began with the tokens `start`: type arguments, or a
dot and a further name. -/
def classTypeTail (r : Rules) (start : List Token) (node : TypeNode) : Parser TypeNode := do
  let here ← get
  let text := spanText (start.take (start.length - here.length))
  match node.type with
  | .generic _ _ => scopedTail
  | _ =>
    (do
      let (args, notes) ← typeArguments r
      return ⟨.generic text args, node.notes ++ notes⟩)
    <|> scopedTail
where
  scopedTail : Parser TypeNode := do
    skip "."
    let notes ← marks r
    let _ ← typeIdentifier
    let here ← get
    return ⟨.scoped (spanText (start.take (start.length - here.length))), node.notes ++ notes⟩

/-- Extends a class type as far as it goes. -/
def classTypeRest (r : Rules) (start : List Token) : Nat → TypeNode → Parser TypeNode
  | 0, node => pure node
  | fuel + 1, node => do
    match ← optionally (classTypeTail r start node) with
    | some longer => classTypeRest r start fuel longer
    | none => return node

/-- A class type: names with dots between them, each with or without type arguments. -/
def classType (r : Rules) : Parser TypeNode := do
  let start ← get
  let first ← typeIdentifier
  classTypeRest r start start.length ⟨.simple first.text, []⟩

/-- A type without brackets. -/
def simpleType (r : Rules) : Parser TypeNode :=
  (do let t ← takeIf fun t => primitiveNames.contains t.text; return ⟨.simple t.text, []⟩)
  <|> (do skip "void"; return ⟨.void, []⟩)
  <|> classType r

/-- A type without annotations before it. -/
def plainType (r : Rules) : Parser TypeNode := do
  let node ← simpleType r
  match ← optionally (dimensions r) with
  | some (n, notes) => return ⟨.array node.type n, node.notes ++ notes⟩
  | none => return node

/-- A type, with or without annotations before it. -/
def typeRule (r : Rules) : Parser TypeNode := do
  let before ← marks r
  let node ← plainType r
  return ⟨node.type, before ++ node.notes⟩

/-- Types with commas between them. -/
def typeList (r : Rules) : Parser (List TypeNode) :=
  separated1 "," r.type

/-- A type parameter with its bounds. -/
def typeParameter (r : Rules) : Parser Unit := do
  let _ ← marks r
  let _ ← identifier
  let _ ← optionally (do
    skip "extends"
    separated1 "&" r.type)

/-- Type parameters in angle brackets. -/
def typeParameters (r : Rules) : Parser Unit := do
  skip "<"
  let _ ← separated1 "," (typeParameter r)
  skip ">"

end ClassDiagram.Java.Grammar
