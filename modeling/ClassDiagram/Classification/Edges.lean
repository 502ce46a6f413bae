import ClassDiagram.Classification.Ownership
import ClassDiagram.Classification.Usage

/-!
# The edges of a declaration

All relationships that start at one declaration: those to its supertypes, then those of
its fields, then those of what it uses. The first edge for a key stands. One type that
cannot be resolved fails the declaration as a whole.
-/

namespace ClassDiagram

/-- The kind of the edge to a supertype. Interfaces only ever inherit; a class that
implements one realizes it. -/
def SupertypeKind.edgeKind : SupertypeKind → DeclKind → RelationshipKind
  | .extends, _ => .inheritance
  | .implements, .interface => .inheritance
  | .implements, _ => .realization

namespace ClassDecl

variable {m : Type → Type} [Monad m]

/-- The candidate of one supertype; none if it is foreign or the type itself. -/
def supertypeCandidate (resolve : Resolver m) (decl : ClassDecl) (s : Supertype) :
    ExceptT AnalysisError m (Option Candidate) := do
  match ← resolve.resolveFor decl.name s.type with
  | .scalar target =>
    if target == decl.name then return none
    else return some ⟨target, s.kind.edgeKind decl.kind, none, none⟩
  | _ => return none

/-- The candidates of the supertypes, in the order of their declaration. -/
def supertypeCandidates (resolve : Resolver m) (decl : ClassDecl) :
    ExceptT AnalysisError m (List Candidate) := do
  let candidates ← decl.supertypes.mapM (decl.supertypeCandidate resolve)
  return candidates.filterMap id

/-- All relationships that start at the declaration. -/
def relationships (resolve : Resolver m) (decl : ClassDecl) :
    ExceptT AnalysisError m (List Relationship) := do
  let supertypes ← decl.supertypeCandidates resolve
  let fields ← decl.fieldCandidates resolve
  let usages ← decl.usageCandidates resolve
  let edges := (supertypes ++ fields ++ usages).map (Candidate.toRelationship decl.name)
  return (RelationshipSet.ofList edges).edges

end ClassDecl

end ClassDiagram
