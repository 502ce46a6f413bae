import ClassDiagram.Java.Extraction
import ClassDiagram.Java.Grammar.Declarations

/-!
# The grammar

The rules tied together. A rule of depth `n + 1` reads what is nested in it with the rules of
depth `n`, and nothing can be read at depth zero. Every nested rule comes after a token or
two, so a depth of twice the number of tokens is never used up.
-/

namespace ClassDiagram.Java

open Grammar in
/-- The rules that read at most `n` levels of nesting. -/
def Rules.ofDepth : Nat → Rules
  | 0 =>
    { type := failure, mark := failure, value := failure, expression := failure
      operand := failure, caseExpression := failure, recordPattern := failure
      statement := failure, declaration := failure, classBody := failure }
  | n + 1 =>
    { type := fun ts => typeRule (ofDepth n) ts
      mark := fun ts => markRule (ofDepth n) ts
      value := fun ts => valueRule (ofDepth n) ts
      expression := fun ts => expressionRule (ofDepth n) ts
      operand := fun ts => operandRule (ofDepth n) ts
      caseExpression := fun ts => caseExpressionRule (ofDepth n) ts
      recordPattern := fun ts => recordPatternRule (ofDepth n) ts
      statement := fun ts => statementRule (ofDepth n) ts
      declaration := fun ts => declarationRule (ofDepth n) ts
      classBody := fun ts => classBodyRule (ofDepth n) ts }

namespace CompilationUnit

/-- A file of the given items. Of several packages the last one counts. -/
def ofItems (items : List Grammar.Item) : CompilationUnit where
  package? := (items.filterMap fun | .package name => some name | _ => none).getLast?
  imports := items.filterMap fun | .import path => some path | _ => none
  types := items.filterMap fun | .type decl => some decl | _ => none

/-- Reads a source file. -/
def parse (source : String) : CompilationUnit :=
  let tokens := tokenize source
  let rules := Rules.ofDepth (2 * tokens.length + 8)
  match Grammar.items rules tokens with
  | some (items, _) => ofItems items
  | none => ofItems []

end CompilationUnit

/-- The declarations of the source text of a file. -/
def declarations (path : RawPath) (source : String) : List ClassDecl :=
  (CompilationUnit.parse source).declarations path

end ClassDiagram.Java
