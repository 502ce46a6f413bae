import ClassDiagram.Classification.Edges
import ClassDiagram.Diagram.Model
import ClassDiagram.Validation

/-!
# The analysis of declarations

Declarations in, diagram out. Malformed input fails the whole run. Of several
declarations with one name the first is kept and the others are reported. Each kept
declaration is then classified against one scope; one that cannot be resolved is
reported and keeps its box without any edges.

A run asks now and then whether it has been cancelled: once before each declaration and
once more when all are classified. A declaration before which the answer is positive is not
classified but has being cancelled for its outcome, and this is an error that ends the run.
-/

namespace ClassDiagram

/-- The result of a run. -/
structure Analysis where
  diagram : Diagram
  /-- Why the declarations that could not be classified failed, in their order. -/
  failures : List AnalysisError
  /-- The names of later declarations of a name, in their order. -/
  duplicates : List String
  deriving DecidableEq, Inhabited, Repr

namespace Analysis

/-- Whether every kept declaration was classified. -/
def isComplete (a : Analysis) : Bool :=
  a.failures.isEmpty

/-- The declarations kept, and the names of those dropped because an earlier one has the
same name. -/
def dedupe (decls : List ClassDecl) : List ClassDecl × List String :=
  decls.foldl (fun (kept, dropped) d =>
    if kept.any fun k => k.name == d.name then (kept, dropped ++ [d.name])
    else (kept ++ [d], dropped)) ([], [])

/-- The scope in which the kept declarations are resolved. -/
def scopeOf (settings : ResolverSettings) (kept : List ClassDecl) : Scope :=
  ⟨.ofDeclarations kept settings, settings⟩

/-- Classifies declarations one after the other, all with one memo. They are numbered from
`i` on, and one whose number is `cancelled` is not looked at. -/
def classifyObserving (s : Scope) (cancelled : Nat → Bool) :
    Nat → List ClassDecl → Remembering (List (Except AnalysisError (List Relationship)))
  | _, [] => return []
  | i, d :: rest => do
    let outcome ← if cancelled i then pure (.error .cancelled)
      else (d.relationships (Resolver.remembering s)).run
    return outcome :: (← classifyObserving s cancelled (i + 1) rest)

/-- Takes in what became of a declaration: its edges are added to the draft, a failure of its
own is put on record, and any other error ends the run. -/
def absorb : Draft × List AnalysisError → Except AnalysisError (List Relationship) →
    Except AnalysisError (Draft × List AnalysisError)
  | (draft, failures), .ok rs => .ok (draft.addRelationships rs, failures)
  | (draft, failures), .error e => if e.isFatal then .error e else .ok (draft, failures ++ [e])

/-- A run in which the `i`-th question whether it is cancelled is answered by
`cancelled i`. -/
def runObserving (settings : ResolverSettings) (cancelled : Nat → Bool)
    (decls : List ClassDecl) : Except AnalysisError Analysis := do
  Validation.checkAll decls
  let (kept, duplicates) := dedupe decls
  let (outcomes, _) := (classifyObserving (scopeOf settings kept) cancelled 0 kept).run .empty
  if cancelled kept.length then
    throw .cancelled
  let (draft, failures) ← outcomes.foldlM absorb (⟨kept.map (·.entity), .empty⟩, [])
  return ⟨draft.finish, failures, duplicates⟩

/-- A run that nothing cancels. -/
def run (settings : ResolverSettings) (decls : List ClassDecl) :
    Except AnalysisError Analysis :=
  runObserving settings (fun _ => false) decls

end Analysis

end ClassDiagram
