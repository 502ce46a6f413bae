import ClassDiagram.Classification.Candidate

/-!
# Use without storage

Parameters, local variables and static calls refer to types that a class uses without
keeping them. A reference on which a member is accessed is an association, any other
only a dependency. What a field already holds is left to the ownership rules, and a type
never depends on itself.
-/

namespace ClassDiagram

/-- How a reference is used inside a body. -/
inductive Usage where
  /-- One of its members is accessed. -/
  | memberAccess
  /-- It is passed on, or not used at all. -/
  | passThrough
  /-- It is a type on which a static member is used. -/
  | static
  deriving DecidableEq, Inhabited, Repr

namespace Usage

/-- How `name` is used in a body. -/
def ofBody (body : BodyFacts) (name : String) : Usage :=
  if body.accesses name then .memberAccess else .passThrough

/-- The candidates of a use of a resolved type, one for each target. -/
def candidates (usage : Usage) (resolution : Resolution) (label : String) : List Candidate :=
  resolution.targets.map fun target =>
    match usage with
    | .memberAccess =>
      ⟨target, .association, some (if resolution.isCollection then .many else .one), some label⟩
    | .passThrough | .static => ⟨target, .dependency, none, some label⟩

end Usage

namespace MethodDecl

/-- The parameters that are not stored and the local variables, in this order. -/
def transients (method : MethodDecl) : List Binding :=
  method.params.filter (fun p => !method.stores p.name) ++ method.body.locals

end MethodDecl

namespace ClassDecl

variable {m : Type → Type} [Monad m]

/-- Every target of every field. -/
def storedTargets (resolve : Resolver m) (decl : ClassDecl) :
    ExceptT AnalysisError m (List String) := do
  let resolutions ← decl.fields.mapM fun f => resolve.resolveFor decl.name f.type
  return resolutions.flatMap Resolution.targets

/-- The type that a static call names: a container is named without being built, so only
a single target counts. -/
def resolveReceiver (resolve : Resolver m) (decl : ClassDecl) (type : TypeRef) :
    ExceptT AnalysisError m Resolution := do
  match ← resolve.resolveFor decl.name type with
  | .scalar target => return .scalar target
  | _ => return .foreign

/-- The candidates of one constructor or method, stored targets and all: its transient
references first, then its static calls. -/
def methodUsages (resolve : Resolver m) (decl : ClassDecl) (method : MethodDecl) :
    ExceptT AnalysisError m (List Candidate) := do
  let references ← method.transients.mapM fun b => do
    let resolution ← resolve.resolveFor decl.name b.type
    return (Usage.ofBody method.body b.name).candidates resolution b.name
  let statics ← method.body.staticCalls.mapM fun c => do
    let resolution ← decl.resolveReceiver resolve c.type
    return Usage.static.candidates resolution c.method
  return references.flatten ++ statics.flatten

/-- The candidates for what the type uses without storing it. -/
def usageCandidates (resolve : Resolver m) (decl : ClassDecl) :
    ExceptT AnalysisError m (List Candidate) := do
  let stored ← decl.storedTargets resolve
  let usages ← decl.callables.mapM (decl.methodUsages resolve)
  return usages.flatten.filter fun c => c.target != decl.name && !stored.contains c.target

end ClassDecl

end ClassDiagram
