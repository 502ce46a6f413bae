/-!
# Type references

A type as it is written where it is used: a name with type arguments, or an array
of another type. Its written form is at the same time its *signature*, the key
under which a resolved type is remembered, so two references with one signature
share one answer.
-/

namespace ClassDiagram

/-- A reference to a type at the place of its use. -/
inductive TypeRef where
  /-- A name `Name` or `pkg.Name`, with type arguments as in `Map<K, V>`. -/
  | named (name : String) (args : List TypeRef)
  /-- An array `T[]`. -/
  | array (element : TypeRef)
  deriving Inhabited, Repr

namespace TypeRef

/-- A type without arguments. -/
def plain (name : String) : TypeRef :=
  .named name []

/-- The array type with `n` dimensions over `element`. -/
def arrayOf (element : TypeRef) : Nat → TypeRef
  | 0 => element
  | n + 1 => .array (arrayOf element n)

mutual

/-- The characters of the written form: `Name`, `Name<A, B>` or `Element[]`. -/
def chars : TypeRef → List Char
  | .named name args =>
    match args with
    | [] => name.toList
    | _ => name.toList ++ '<' :: (argumentChars args ++ ['>'])
  | .array element => element.chars ++ ['[', ']']

/-- The written forms of type arguments, divided by a comma and a space. -/
def argumentChars : List TypeRef → List Char
  | [] => []
  | [a] => a.chars
  | a :: b :: rest => a.chars ++ ',' :: ' ' :: argumentChars (b :: rest)

end

/-- The written form of a type. It is also the key of the resolution memo. -/
def signature (t : TypeRef) : String :=
  String.ofList t.chars

mutual

/-- Every name in a type, outermost first and arguments from left to right. -/
def names : TypeRef → List String
  | .named name args => name :: argumentNames args
  | .array element => element.names

/-- Every name in a list of type arguments. -/
def argumentNames : List TypeRef → List String
  | [] => []
  | a :: rest => a.names ++ argumentNames rest

end

mutual

/-- How deep type arguments and arrays are nested. -/
def depth : TypeRef → Nat
  | .named _ args => argumentDepth args + 1
  | .array element => element.depth + 1

/-- The greatest depth in a list of type arguments. -/
def argumentDepth : List TypeRef → Nat
  | [] => 0
  | a :: rest => max a.depth (argumentDepth rest)

end

@[simp] theorem chars_plain (name : String) : (plain name).chars = name.toList := rfl

@[simp] theorem chars_array (t : TypeRef) : (array t).chars = t.chars ++ ['[', ']'] := by
  simp [chars]

end TypeRef

end ClassDiagram
