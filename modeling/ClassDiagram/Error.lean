/-!
# Errors of an analysis

Each constructor is a cause. An unresolved type fails one declaration, a duplicate
is only reported, and the two fatal causes end the whole run.
-/

namespace ClassDiagram

/-- What is wrong with a malformed declaration. -/
inductive Malformation where
  /-- The declaration's own name is not a qualified name. -/
  | declarationName
  /-- A field's name is empty or has a blank. -/
  | fieldName
  | duplicateField (name : String)
  /-- The name of a constructor or method is empty or has a blank. -/
  | methodName (name : String)
  /-- A parameter's name is empty or has a blank. -/
  | parameterName (method : String)
  | duplicateParameter (name method : String)
  /-- A name in a type is not a qualified name; `place` says where the type stands. -/
  | typeName (name place : String)
  deriving DecidableEq, Inhabited, Repr

/-- The wording of a malformation. -/
def Malformation.message : Malformation → String
  | .declarationName => "invalid qualified name"
  | .fieldName => "empty field name"
  | .duplicateField name => "duplicate field `" ++ name ++ "`"
  | .methodName name => "invalid method name `" ++ name ++ "`"
  | .parameterName method => "empty parameter name in `" ++ method ++ "`"
  | .duplicateParameter name method =>
    "duplicate parameter `" ++ name ++ "` in `" ++ method ++ "`"
  | .typeName name place => "invalid type name `" ++ name ++ "` in " ++ place

/-- Why an analysis, or a part of it, failed. -/
inductive AnalysisError where
  /-- A type is neither user-defined nor known to be foreign, and this is strict. -/
  | unresolvedType (entity typeName : String)
  /-- A declaration does not have the expected shape. -/
  | malformed (entity : String) (reason : Malformation)
  /-- Two declarations share a name; the first one stands. -/
  | duplicateEntity (name : String)
  | cancelled
  deriving DecidableEq, Inhabited, Repr

namespace AnalysisError

/-- The wording of an error. -/
def message : AnalysisError → String
  | .unresolvedType entity typeName =>
    "unresolved type `" ++ typeName ++ "` referenced from `" ++ entity ++ "`"
  | .malformed entity reason =>
    "malformed declaration `" ++ entity ++ "`: " ++ reason.message
  | .duplicateEntity name =>
    "duplicate entity `" ++ name ++ "`; keeping the first declaration"
  | .cancelled => "analysis cancelled"

/-- Whether the error ends the whole run rather than failing one declaration. -/
def isFatal : AnalysisError → Bool
  | .malformed _ _ | .cancelled => true
  | _ => false

end AnalysisError

end ClassDiagram
