import ClassDiagram.Java.Tree
import ClassDiagram.Text.Blank

/-!
# From written types to type references

The structure of a written type is kept: arguments, arrays and the bounds of wildcards.
A dotted name loses the blanks around its dots. What has no type at all, a missing result
above all, has no type reference.
-/

namespace ClassDiagram.Java.TypeExpr

mutual

/-- The type reference of a written type, if it has one. -/
def toTypeRef? : TypeExpr → Option TypeRef
  | .void => none
  | .simple name => some (.plain name)
  | .scoped text => some (.plain (Text.withoutBlanks text))
  | .generic base args => some (.named (Text.withoutBlanks base) (argTypeRefs args))
  | .array element dimensions => element.toTypeRef?.map fun t => t.arrayOf dimensions
  | .unbounded => some (.plain "Object")
  | .bounded bound => bound.toTypeRef?

/-- The type references of type arguments. -/
def argTypeRefs : List TypeExpr → List TypeRef
  | [] => []
  | a :: rest =>
    match a.toTypeRef? with
    | some t => t :: argTypeRefs rest
    | none => argTypeRefs rest

end

/-- Whether a written type stands for one. Only `void` does not. -/
def isType : TypeExpr → Bool
  | .void => false
  | .array element _ => element.isType
  | .bounded bound => bound.isType
  | .simple _ | .scoped _ | .generic _ _ | .unbounded => true

theorem isSome_toTypeRef? : ∀ t : TypeExpr, t.toTypeRef?.isSome = t.isType
  | .void => by simp [toTypeRef?, isType]
  | .simple _ => by simp [toTypeRef?, isType]
  | .scoped _ => by simp [toTypeRef?, isType]
  | .generic _ _ => by simp [toTypeRef?, isType]
  | .array element _ => by
    rw [toTypeRef?, Option.isSome_map, isSome_toTypeRef? element, isType]
  | .unbounded => by simp [toTypeRef?, isType]
  | .bounded bound => by rw [toTypeRef?, isSome_toTypeRef? bound, isType]

end ClassDiagram.Java.TypeExpr
