/-!
# Documents

The value type of the data format: nulls, truth values, decimal numbers, texts, lists
and objects. The entries of an object keep the order in which they were written.
-/

namespace ClassDiagram

/-- A document. -/
inductive Json where
  | null
  | bool (b : Bool)
  /-- The number `mantissa / 10 ^ decimals`. -/
  | num (mantissa : Int) (decimals : Nat)
  | str (s : String)
  | arr (items : List Json)
  | obj (entries : List (String × Json))
  deriving Inhabited, Repr

namespace Json

/-- A natural number. -/
def nat (n : Nat) : Json :=
  .num n 0

/-- A value or null. -/
def ofOption {α : Type} (encode : α → Json) : Option α → Json
  | none => .null
  | some a => encode a

/-- A list of values. -/
def ofList {α : Type} (encode : α → Json) (xs : List α) : Json :=
  .arr (xs.map encode)

/-- A value or null, where not every value has a document. -/
def ofOption? {α : Type} (encode : α → Option Json) : Option α → Option Json
  | none => some .null
  | some a => encode a

/-- A list of values, where not every value has a document. -/
def ofList? {α : Type} (encode : α → Option Json) (xs : List α) : Option Json :=
  (xs.mapM encode).map .arr

/-- A list of texts. -/
def strings (xs : List String) : Json :=
  ofList .str xs

mutual

/-- How deep lists and objects are nested. -/
def depth : Json → Nat
  | .arr items => itemsDepth items + 1
  | .obj entries => entriesDepth entries + 1
  | _ => 0

/-- The greatest depth in a list. -/
def itemsDepth : List Json → Nat
  | [] => 0
  | v :: rest => max v.depth (itemsDepth rest)

/-- The greatest depth in an object. -/
def entriesDepth : List (String × Json) → Nat
  | [] => 0
  | (_, v) :: rest => max v.depth (entriesDepth rest)

end

end Json

end ClassDiagram
