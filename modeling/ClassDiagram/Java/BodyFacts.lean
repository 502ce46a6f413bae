import ClassDiagram.Java.TypeReference

/-!
# What a body does

The body of a constructor or method is read in the order of the source, each node before
its parts, and every occurrence that matters is noted as a *sighting*. Types declared
inside the body, anonymous ones included, are a scope of their own: nothing inside them is
seen. What a name stands for is only known once the whole body has been read, so names are
judged afterwards: a bare `f = x` assigns a field only if no parameter or local variable is
called `f`, and a capitalized receiver is a type only if no variable or field has its name.
-/

namespace ClassDiagram.Java

/-- Something seen in a body. -/
inductive Sighting where
  /-- A name passed as an argument. -/
  | argument (name : String)
  /-- A member of `name` accessed. -/
  | access (name : String)
  /-- A member of `receiver` accessed, where the receiver is capitalized. -/
  | typeUse (receiver member : String)
  /-- An assignment `this.field = …`. -/
  | ownAssignment (field : String) (source : AssignSource)
  /-- An assignment `field = …`. -/
  | bareAssignment (field : String) (source : AssignSource)
  /-- A local variable whose type is known. -/
  | variable (v : Binding)
  /-- A call `this(…)` at the beginning of a constructor. -/
  | delegation
  deriving Inhabited, Repr

namespace Sighting

/-- A member of the bare name `receiver` accessed. A name that begins with an ASCII capital
is taken for a type until it turns out to be a variable. -/
def receiver (receiver member : String) : Sighting :=
  match receiver.toList.head? with
  | some c => if c.isUpper then .typeUse receiver member else .access receiver
  | none => .access receiver

end Sighting

/-- What an assigned expression is: a fresh instance, a bare name, or anything else. -/
def Code.assignSource : Code → AssignSource
  | .create _ type _ _ =>
    match type.toTypeRef? with
    | some t => .construct t
    | none => .other
  | .name n => .parameter n
  | _ => .other

/-- The type of the fresh instance an expression creates, if it is a creation. -/
def Code.created? : Code → Option TypeRef
  | .create _ type _ _ => type.toTypeRef?
  | _ => none

/-- The type of a declared local variable. One declared with `var` takes the type its value
creates, and has none if the value is not a creation. -/
def Declarator.type? (declared : TypeExpr) (d : Declarator) : Option TypeRef :=
  match declared with
  | .simple "var" => d.value?.bind Code.created?
  | _ => declared.toTypeRef?.map fun t => t.arrayOf d.dimensions

/-- The local variables of a declaration whose types are known. -/
def localSightings (declared : TypeExpr) (declarators : List Declarator) : List Sighting :=
  declarators.filterMap fun d => (d.type? declared).map fun t => .variable ⟨d.name, t⟩

/-- The bare names among arguments. -/
def argumentSightings (args : List Code) : List Sighting :=
  args.filterMap fun | .name n => some (.argument n) | _ => none

/-- What a call says about its receiver: a bare name, or a field of the current object. -/
def callSightings (receiver : Code) (method : String) : List Sighting :=
  match receiver with
  | .name n => [.receiver n method]
  | .access .this field => [.access field]
  | _ => []

/-- What an assignment says about its target. -/
def assignSightings (target value : Code) : List Sighting :=
  match target with
  | .access .this field => [.ownAssignment field value.assignSource]
  | .name field => [.bareAssignment field value.assignSource]
  | _ => []

mutual

/-- Everything seen in a statement or expression, each node before its parts. -/
def Code.sightings : Code → List Sighting
  | .name _ => []
  | .this => []
  | .access object member =>
    (match object with
      | .name n => [.receiver n member]
      | _ => []) ++ object.sightings
  | .invoke _ args => argumentSightings args ++ allSightings args
  | .call receiver notes method args =>
    callSightings receiver method ++ receiver.sightings ++ allSightings notes
      ++ argumentSightings args ++ allSightings args
  | .create before _ args _ =>
    allSightings before ++ argumentSightings args ++ allSightings args
  | .assign target value =>
    assignSightings target value ++ target.sightings ++ value.sightings
  | .locals notes type declarators =>
    localSightings type declarators ++ allSightings notes ++ variableSightings declarators
  | .forEach notes type name parts =>
    (match type.toTypeRef? with
      | some t => [.variable ⟨name, t⟩]
      | none => []) ++ allSightings notes ++ allSightings parts
  | .delegate toThis before args =>
    (if toThis then [.delegation] else []) ++ allSightings before
      ++ argumentSightings args ++ allSightings args
  | .declare _ => []
  | .group parts => allSightings parts

/-- Everything seen in some statements or expressions, one after the other. -/
def allSightings : List Code → List Sighting
  | [] => []
  | c :: rest => c.sightings ++ allSightings rest

/-- Everything seen in the values of declared variables. -/
def variableSightings : List Declarator → List Sighting
  | [] => []
  | d :: rest => d.sightings ++ variableSightings rest

/-- Everything seen in the value of a declared variable. -/
def Declarator.sightings : Declarator → List Sighting
  | .mk _ _ notes none => allSightings notes
  | .mk _ _ notes (some value) => allSightings notes ++ value.sightings

end

/-- A list without later repetitions. -/
def firstOccurrences (xs : List String) : List String :=
  xs.foldl (fun seen x => if seen.contains x then seen else seen ++ [x]) []

namespace Sighting

/-- The local variables seen. -/
def locals (ss : List Sighting) : List Binding :=
  ss.filterMap fun | .variable v => some v | _ => none

/-- The names passed as arguments. -/
def arguments (ss : List Sighting) : List String :=
  ss.filterMap fun | .argument n => some n | _ => none

/-- The names accessed that cannot be types. -/
def accesses (ss : List Sighting) : List String :=
  ss.filterMap fun | .access n => some n | _ => none

/-- The capitalized receivers with the member used. -/
def typeUses (ss : List Sighting) : List (String × String) :=
  ss.filterMap fun | .typeUse r m => some (r, m) | _ => none

/-- The assignments through the current object. -/
def ownAssignments (ss : List Sighting) : List FieldAssignment :=
  ss.filterMap fun | .ownAssignment f s => some ⟨f, s⟩ | _ => none

/-- The assignments to bare names. -/
def bareAssignments (ss : List Sighting) : List FieldAssignment :=
  ss.filterMap fun | .bareAssignment f s => some ⟨f, s⟩ | _ => none

/-- Whether the body hands over to another constructor. -/
def delegates (ss : List Sighting) : Bool :=
  ss.any fun | .delegation => true | _ => false

end Sighting

/-- An assigned name counts as a parameter only if it is one. -/
def FieldAssignment.judged (params : List Binding) (a : FieldAssignment) : FieldAssignment :=
  match a.source with
  | .parameter p => if params.any (fun b => b.name == p) then a else { a with source := .other }
  | _ => a

/-- The facts about a body, given what was seen in it, the parameters of its constructor or
method, and the names of the fields around it. -/
def factsOf (params : List Binding) (fields : List String) (ss : List Sighting) : BodyFacts :=
  let locals := Sighting.locals ss
  let isVariable (name : String) : Bool :=
    params.any (fun b => b.name == name) || locals.any (fun b => b.name == name)
  let isValue (name : String) : Bool := isVariable name || fields.contains name
  let bare := (Sighting.bareAssignments ss).filter fun a =>
    fields.contains a.field && !isVariable a.field
  let uses := Sighting.typeUses ss
  { memberAccesses :=
      firstOccurrences (Sighting.accesses ss ++ (uses.filter fun u => isValue u.1).map (·.1))
    callArguments := firstOccurrences (Sighting.arguments ss)
    fieldAssignments := (Sighting.ownAssignments ss ++ bare).map (FieldAssignment.judged params)
    staticCalls := (uses.filter fun u => !isValue u.1).map fun u => ⟨.plain u.1, u.2⟩
    locals := locals
    delegatesToThis := Sighting.delegates ss }

end ClassDiagram.Java
