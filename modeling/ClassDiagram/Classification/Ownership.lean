import ClassDiagram.Classification.Candidate

/-!
# Ownership of what is stored

How strongly a type owns what it keeps in a field. A collection is aggregated, an
optional associated; a single target is composed when there is evidence that the owner
itself creates it, and associated otherwise. Assigning a parameter to the field anywhere
speaks against ownership, whatever else is found.
-/

namespace ClassDiagram

/-- Who creates the value of a field. -/
inductive OwnershipClue where
  /-- The owner: at the declaration, or in each of its constructors. -/
  | constructedInline
  /-- Somebody else: it is assigned from a parameter. -/
  | injected
  | unclear
  deriving DecidableEq, Inhabited, Repr

/-- The word for a clue. -/
def OwnershipClue.text : OwnershipClue → String
  | .constructedInline => "constructed-inline"
  | .injected => "injected"
  | .unclear => "none"

/-- A field reduced to what its classification needs. -/
structure StoredMember where
  name : String
  resolution : Resolution
  clue : OwnershipClue
  nullable : Bool
  deriving DecidableEq, Inhabited, Repr

namespace StoredMember

/-- Kind and multiplicity of the edge to a single stored target. -/
def scalarEdge (clue : OwnershipClue) (nullable : Bool) : RelationshipKind × Multiplicity :=
  match clue with
  | .constructedInline => (.composition, .one)
  | .injected => (.association, if nullable then .zeroOrOne else .one)
  | .unclear => (.association, .zeroOrOne)

/-- The candidates of a stored member, one for each target; none if it is foreign. -/
def candidates (member : StoredMember) : List Candidate :=
  let edge (kind : RelationshipKind) (multiplicity : Multiplicity) (target : String) : Candidate :=
    ⟨target, kind, some multiplicity, some member.name⟩
  match member.resolution with
  | .foreign => []
  | .optional target => [edge .association .zeroOrOne target]
  | .scalar target =>
    let (kind, multiplicity) := scalarEdge member.clue member.nullable
    [edge kind multiplicity target]
  | collection => collection.targets.map (edge .aggregation .many)

end StoredMember

/-- Whether a constructor or method assigns one of its own parameters to `field`. -/
def MethodDecl.injects (method : MethodDecl) (field : String) : Bool :=
  method.body.fieldAssignments.any fun a =>
    a.field == field && match a.source with
      | .parameter p => method.hasParam p
      | _ => false

namespace ClassDecl

/-- The constructors that do not leave their work to another one. -/
def ownConstructors (decl : ClassDecl) : List MethodDecl :=
  decl.constructors.filter fun c => !c.body.delegatesToThis

variable {m : Type → Type} [Monad m]

/-- Whether creating an instance of `type` creates exactly `target`. -/
def constructs (resolve : Resolver m) (target : String) (type : TypeRef) : m Bool := do
  match ← resolve type with
  | .ok (.scalar t) => return t == target
  | _ => return false

/-- Whether an assignment gives `field` a fresh instance of `target`. -/
def assignsFresh (resolve : Resolver m) (field target : String) (a : FieldAssignment) : m Bool :=
  if a.field == field then
    match a.source with
    | .construct type => constructs resolve target type
    | _ => pure false
  else pure false

/-- Whether some assignment of a constructor gives `field` a fresh instance of `target`. -/
def constructorBuilds (resolve : Resolver m) (field target : String) (c : MethodDecl) : m Bool :=
  c.body.fieldAssignments.anyM (assignsFresh resolve field target)

/-- Whether the initializer of a field is a fresh instance of `target`. -/
def initializerBuilds (resolve : Resolver m) (target : String) : Initializer → m Bool
  | .construct type => constructs resolve target type
  | _ => pure false

/-- The clue for `field`, whose type resolves to the single target `target`. -/
def ownershipClue (resolve : Resolver m) (decl : ClassDecl) (field : FieldDecl)
    (target : String) : m OwnershipClue := do
  if decl.callables.any (·.injects field.name) then
    return .injected
  if ← initializerBuilds resolve target field.initializer then
    return .constructedInline
  if decl.ownConstructors.isEmpty then
    return .unclear
  if ← decl.ownConstructors.allM (constructorBuilds resolve field.name target) then
    return .constructedInline
  return .unclear

/-- A field as a stored member. -/
def storedMember (resolve : Resolver m) (decl : ClassDecl) (field : FieldDecl) :
    ExceptT AnalysisError m StoredMember := do
  let resolution ← resolve.resolveFor decl.name field.type
  let clue ← match resolution with
    | .scalar target => ExceptT.lift (decl.ownershipClue resolve field target)
    | _ => pure .unclear
  return ⟨field.name, resolution, clue, field.nullable.getD false⟩

/-- The candidates of all fields, in the order of their declaration. -/
def fieldCandidates (resolve : Resolver m) (decl : ClassDecl) :
    ExceptT AnalysisError m (List Candidate) := do
  let members ← decl.fields.mapM (decl.storedMember resolve)
  return members.flatMap StoredMember.candidates

end ClassDecl

end ClassDiagram
