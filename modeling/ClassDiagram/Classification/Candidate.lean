import ClassDiagram.Relationship
import ClassDiagram.Resolution.Memo

/-!
# Candidates and resolvers

A *candidate* is a relationship seen from its source. Classification asks for the
resolution of types through a *resolver*, any way to answer such questions in a monad:
the plain resolution, or the one that remembers. Every classification below is written
once for both.
-/

namespace ClassDiagram

/-- A relationship before its source is attached. -/
structure Candidate where
  target : String
  kind : RelationshipKind
  multiplicity : Option Multiplicity
  label : Option String
  deriving DecidableEq, Inhabited, Repr

/-- The relationship that starts at `source`. -/
def Candidate.toRelationship (source : String) (c : Candidate) : Relationship :=
  ⟨source, c.target, c.kind, c.multiplicity, c.label⟩

/-- A way to resolve types. -/
abbrev Resolver (m : Type → Type) := TypeRef → m Slot

namespace Resolver

/-- The resolver that works everything out afresh. -/
def plain (s : Scope) : Resolver Id :=
  fun t => pure (s.resolve t)

/-- The resolver that remembers. -/
def remembering (s : Scope) : Resolver Remembering :=
  s.recallType

/-- Resolves a type on behalf of `entity`, against which a failure is reported. -/
def resolveFor {m : Type → Type} [Monad m] (resolve : Resolver m) (entity : String)
    (type : TypeRef) : ExceptT AnalysisError m Resolution := do
  match ← resolve type with
  | .ok r => return r
  | .error name => throw (.unresolvedType entity name)

/-- Resolving for an entity resolves, and turns the name of a failure into an error. -/
theorem run_resolveFor {m : Type → Type} [Monad m] [LawfulMonad m] (resolve : Resolver m)
    (entity : String) (type : TypeRef) :
    (resolve.resolveFor entity type).run
      = resolve type >>= fun slot => pure (slot.mapError (.unresolvedType entity)) := by
  refine (ExceptT.run_bind_lift (resolve type) _).trans (bind_congr fun slot => ?_)
  cases slot with
  | ok r => rfl
  | error name => rfl

end Resolver

end ClassDiagram
