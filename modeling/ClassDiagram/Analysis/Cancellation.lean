import ClassDiagram.Analysis

/-!
# Cancellation

A *token* is a name for a flag that is set once and never cleared. Copies of a token
share its flag, so setting one sets them all. A run observes the flag of the token it
was given and no other.
-/

namespace ClassDiagram

/-- The tokens of a session: each known token stands for a flag, and the flags that are
set. A token that was never mentioned stands for a fresh flag of its own. -/
structure Tokens where
  /-- The flag of each token, the latest mention first. -/
  flagOf : List (String × Nat)
  /-- The flags that are set. -/
  raised : List Nat
  /-- The number of flags handed out so far. -/
  count : Nat
  deriving Inhabited, Repr

namespace Tokens

/-- No token is known. -/
def empty : Tokens :=
  ⟨[], [], 0⟩

/-- Makes `token` stand for a fresh flag. -/
def create (ts : Tokens) (token : String) : Tokens :=
  { ts with flagOf := (token, ts.count) :: ts.flagOf, count := ts.count + 1 }

/-- The flag of a token; a token mentioned for the first time gets a fresh one. -/
def flag (ts : Tokens) (token : String) : Nat × Tokens :=
  match ts.flagOf.lookup token with
  | some f => (f, ts)
  | none => (ts.count, ts.create token)

/-- Sets the flag of a token. -/
def cancel (ts : Tokens) (token : String) : Tokens :=
  let (f, ts) := ts.flag token
  { ts with raised := f :: ts.raised }

/-- Makes `copy` stand for the flag of `token`. -/
def share (ts : Tokens) (token copy : String) : Tokens :=
  let (f, ts) := ts.flag token
  { ts with flagOf := (copy, f) :: ts.flagOf }

/-- Whether the flag of a token is set. -/
def isCancelled (ts : Tokens) (token : String) : Bool :=
  match ts.flagOf.lookup token with
  | some f => ts.raised.contains f
  | none => false

end Tokens

/-- A run under the token `token`, whose flag does not change while it lasts. -/
def Analysis.runUnder (settings : ResolverSettings) (ts : Tokens) (token : String)
    (decls : List ClassDecl) : Except AnalysisError Analysis :=
  runObserving settings (fun _ => ts.isCancelled token) decls

end ClassDiagram
