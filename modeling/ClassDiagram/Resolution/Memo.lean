import ClassDiagram.Error
import ClassDiagram.Resolution

/-!
# Remembered resolutions

A resolver that remembers every type it has met under the type's signature. A
remembered type is answered at once and counted as a hit; any other is counted as a
miss before its parts are resolved, and its outcome, a failure included, is remembered
the moment it is known. A remembered outcome is never replaced.
-/

namespace ClassDiagram

/-- What is remembered for one signature: a resolution, or the name that could not be
resolved. -/
abbrev Slot := Except String Resolution

/-- The remembered outcomes and the two counters. -/
structure Memo where
  slots : Std.HashMap String Slot
  hits : Nat
  misses : Nat

namespace Memo

/-- Nothing is remembered yet. -/
def empty : Memo :=
  ⟨∅, 0, 0⟩

/-- Counts an answer from memory. -/
def hit (m : Memo) : Memo :=
  { m with hits := m.hits + 1 }

/-- Counts an answer that has to be worked out. -/
def miss (m : Memo) : Memo :=
  { m with misses := m.misses + 1 }

/-- Remembers an outcome unless the signature already has one. -/
def remember (m : Memo) (key : String) (slot : Slot) : Memo :=
  { m with slots := m.slots.insertIfNew key slot }

/-- What is read after remembering: the older outcome where there is one. -/
theorem getElem?_remember (m : Memo) (key : String) (slot : Slot) (k : String) :
    (m.remember key slot).slots[k]?
      = if key = k then some (m.slots[k]?.getD slot) else m.slots[k]? := by
  simp only [remember, Std.HashMap.getElem?_insertIfNew, Std.HashMap.mem_iff_isSome_getElem?]
  by_cases hkey : key = k
  · subst hkey
    cases h : m.slots[key]? <;> simp
  · simp [hkey]

end Memo

/-- A computation that may consult and extend the memo. -/
abbrev Remembering := StateM Memo

namespace Remembering

/-- Answers from memory if the signature is known, and works the answer out if not. -/
def remembered (key : String) (compute : Remembering Slot) : Remembering Slot := fun m =>
  match m.slots[key]? with
  | some slot => (slot, m.hit)
  | none =>
    let (slot, m') := compute m.miss
    let m' := m'.remember key slot
    (m'.slots[key]?.getD slot, m')

theorem remembered_of_some {key : String} {compute : Remembering Slot} {m : Memo} {slot : Slot}
    (h : m.slots[key]? = some slot) : remembered key compute m = (slot, m.hit) := by
  rw [remembered, h]

theorem remembered_of_none {key : String} {compute : Remembering Slot} {m : Memo}
    (h : m.slots[key]? = none) :
    remembered key compute m
      = (((compute m.miss).2.remember key (compute m.miss).1).slots[key]?.getD (compute m.miss).1,
          (compute m.miss).2.remember key (compute m.miss).1) := by
  rw [remembered, h]
  rfl

end Remembering

namespace Scope

open Remembering

mutual

/-- The remembered resolution of a type. -/
def recallType (s : Scope) : TypeRef → Remembering Slot
  | .array element =>
    remembered (TypeRef.array element).signature do
      return (← s.recallType element).map (Wrapper.list.apply false)
  | .named name args =>
    remembered (TypeRef.named name args).signature
      (match s.role name with
        | .leaf outcome => pure outcome
        | .mapLike => s.recallSides args
        | .wrapper w transparent => s.recallElement w transparent args)

/-- The remembered resolution of a map over its arguments. -/
def recallSides (s : Scope) : List TypeRef → Remembering Slot
  | [key, value] => do
    match ← s.recallType key with
    | .error name => return .error name
    | .ok k =>
      match ← s.recallType value with
      | .error name => return .error name
      | .ok v => return .ok (.ofSides k.targets v.targets)
  | _ => return .ok .foreign

/-- The remembered resolution of a container over its last argument. -/
def recallElement (s : Scope) (w : Wrapper) (transparent : Bool) :
    List TypeRef → Remembering Slot
  | [] => return .ok .foreign
  | [element] => do return (← s.recallType element).map (w.apply transparent)
  | _ :: next :: rest => s.recallElement w transparent (next :: rest)

end

end Scope

end ClassDiagram
