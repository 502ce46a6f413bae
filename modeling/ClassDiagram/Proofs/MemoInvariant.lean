import ClassDiagram.Proofs.Leaves

/-!
# What holds of all that is remembered

A resolver that remembers does not start from the plain resolution of a type: it may read a
part of it off the memo, and what is there may have been put there for another type that is
written alike. Still, it puts outcomes together by the same clauses. A property that these
clauses hand on (`Inherited`) holds of every answer as long as it holds of all that is
remembered, and then it holds of all that is remembered afterwards (`recallType_gives`).

So it holds of whatever a resolver remembers that started with nothing and was asked for one
type after the other (`Attains.all`). This is all that ever happens to a memo: what a
consultation does to it, its questions do (`Consults.invariant`). The property that has to do
with diagrams is `Slot.Proper`: what is not foreign has a target.
-/

namespace ClassDiagram

/-- A property of outcomes that the clauses of resolution hand on. -/
structure Inherited (s : Scope) (P : Slot → Prop) : Prop where
  leaf : ∀ name, P (s.leafOutcome name)
  foreign : P (.ok .foreign)
  wrap : ∀ (w : Wrapper) (transparent : Bool) {slot : Slot}, P slot →
    P (slot.map (w.apply transparent))
  sides : ∀ {key value : Slot}, P key → P value → P (Slot.sides key value)

/-- Every remembered outcome has the property. -/
def Memo.All (P : Slot → Prop) (m : Memo) : Prop :=
  ∀ (key : String) (slot : Slot), m.slots[key]? = some slot → P slot

section

variable {P : Slot → Prop}

namespace Memo

theorem all_empty : empty.All P := by
  intro key slot h
  unfold empty at h
  rw [Std.HashMap.getElem?_empty] at h
  cases h

theorem All.remember {m : Memo} (h : m.All P) (key : String) {slot : Slot} (hslot : P slot) :
    (m.remember key slot).All P := by
  intro k found hfound
  rw [getElem?_remember] at hfound
  split at hfound
  · cases hold : m.slots[k]? with
    | some old =>
      rw [hold] at hfound
      exact Option.some.inj hfound ▸ h k old hold
    | none =>
      rw [hold] at hfound
      exact Option.some.inj hfound ▸ hslot
  · exact h k found hfound

end Memo

/-- A computation of an outcome that has the property if all that is remembered has it, and
that leaves it so. -/
def Remembering.Gives (P : Slot → Prop) (x : Remembering Slot) : Prop :=
  ∀ m : Memo, m.All P → P (x m).1 ∧ (x m).2.All P

namespace Remembering

theorem gives_pure {slot : Slot} (h : P slot) : Gives P (pure slot) :=
  fun _ hm => ⟨h, hm⟩

theorem Gives.bind {x : Remembering Slot} {f : Slot → Remembering Slot} (hx : Gives P x)
    (hf : ∀ slot, P slot → Gives P (f slot)) : Gives P (x >>= f) :=
  fun m hm => hf _ (hx m hm).1 _ (hx m hm).2

theorem Gives.remembered {key : String} {compute : Remembering Slot} (hc : Gives P compute) :
    Gives P (remembered key compute) := by
  intro m hm
  cases h : m.slots[key]? with
  | some slot =>
    rw [remembered_of_some h]
    exact ⟨hm key slot h, hm⟩
  | none =>
    obtain ⟨hslot, hm'⟩ := hc m.miss hm
    have hafter := hm'.remember key hslot
    rw [remembered_of_none h]
    refine ⟨?_, hafter⟩
    -- what is read back is in the memo
    rw [Memo.getElem?_remember, if_pos rfl]
    cases hold : (compute m.miss).2.slots[key]? with
    | some old => exact hm' key old hold
    | none => exact hslot

end Remembering

namespace Scope

open Remembering

variable {s : Scope}

mutual

/-- One request. -/
theorem recallType_gives (h : Inherited s P) : ∀ t : TypeRef, Gives P (s.recallType t)
  | .array element => by
    rw [recallType]
    refine Gives.remembered ((recallType_gives h element).bind fun slot hslot => ?_)
    exact gives_pure (h.wrap .list false hslot)
  | .named name args => by
    rw [recallType]
    refine Gives.remembered ?_
    rcases s.role_cases name with ⟨-, hrole⟩ | ⟨-, -, hrole⟩ | ⟨-, -, w, transparent, hrole⟩
    · rw [hrole]
      exact gives_pure (h.leaf name)
    · rw [hrole]
      exact recallSides_gives h args
    · rw [hrole]
      exact recallElement_gives h w transparent args

theorem recallSides_gives (h : Inherited s P) :
    ∀ args : List TypeRef, Gives P (s.recallSides args)
  | [] => gives_pure h.foreign
  | [_] => gives_pure h.foreign
  | _ :: _ :: _ :: _ => gives_pure h.foreign
  | [key, value] => by
    rw [recallSides]
    refine (recallType_gives h key).bind fun k hk => ?_
    cases k with
    | error name => exact gives_pure hk
    | ok k =>
      refine (recallType_gives h value).bind fun v hv => ?_
      cases v with
      | error name => exact gives_pure hv
      | ok v => exact gives_pure (h.sides hk hv)

theorem recallElement_gives (h : Inherited s P) (w : Wrapper) (transparent : Bool) :
    ∀ args : List TypeRef, Gives P (s.recallElement w transparent args)
  | [] => gives_pure h.foreign
  | [element] => by
    rw [recallElement]
    refine (recallType_gives h element).bind fun slot hslot => ?_
    exact gives_pure (h.wrap w transparent hslot)
  | _ :: next :: rest => by
    rw [recallElement]
    exact recallElement_gives h w transparent (next :: rest)

end

/-- The memos that a resolver of the scope can have. It starts with nothing remembered and
is asked for one type after the other. -/
inductive Attains (s : Scope) : Memo → Prop
  | start : Attains s .empty
  | request {m : Memo} (t : TypeRef) : Attains s m → Attains s (s.recallType t m).2

/-- **An inherited property holds of everything a resolver remembers.** -/
theorem Attains.all (hP : Inherited s P) {m : Memo} (h : s.Attains m) : m.All P := by
  induction h with
  | start => exact Memo.all_empty
  | request t _ ih => exact (recallType_gives hP t _ ih).2

end Scope

/-- What a consultation does to the memo, its questions do. -/
theorem Consults.invariant {s : Scope} {Q : TypeRef → Prop} {α : Type} {x : Remembering α}
    {y : Answers → Id α} (h : Consults s Q x y) {I : Memo → Prop}
    (hstep : ∀ (t : TypeRef) (m : Memo), I m → I (s.recallType t m).2) {m : Memo}
    (hm : I m) : I (x m).2 := by
  induction h generalizing m with
  | done a => exact hm
  | @ask t x y _ _ ih => exact ih _ (hstep t m hm)

/-- So a consultation leaves nothing that requests could not have left. -/
theorem ConsultsOrFails.attains {s : Scope} {Q : TypeRef → Prop} {ε α : Type}
    {x : ExceptT ε Remembering α} {y : Answers → ExceptT ε Id α} (h : ConsultsOrFails s Q x y)
    {m m' : Memo} {o : Except ε α} (hrun : x.run m = (o, m')) (hm : s.Attains m) :
    s.Attains m' := by
  have hend := Consults.invariant h (fun t _ => Scope.Attains.request t) hm
  rwa [show x.run m = (o, m') from hrun] at hend

end

/-! ## Outcomes that lead somewhere -/

/-- An outcome that is foreign if it has no target. -/
def Slot.Proper (slot : Slot) : Prop :=
  ∀ r, slot = .ok r → r.targets = [] → r = .foreign

theorem inherited_proper (s : Scope) : Inherited s Slot.Proper where
  leaf name := by
    unfold Scope.leafOutcome Scope.unknownOutcome
    split
    · rintro r ⟨⟩ -; rfl
    · split
      · rintro r ⟨⟩ hnone; cases hnone
      · split
        · rintro r ⟨⟩ -; rfl
        · split
          · rintro r ⟨⟩
          · split
            · rintro r ⟨⟩ -; rfl
            · rintro r ⟨⟩ hnone; cases hnone
  foreign := by
    rintro r ⟨⟩ -
    rfl
  wrap w transparent slot h := by
    cases slot with
    | error name => rintro r ⟨⟩
    | ok inner =>
      rintro r ⟨⟩ hnone
      rw [w.targets_apply] at hnone
      exact w.apply_eq_foreign_iff.mpr (h inner rfl hnone)
  sides {key value} _ _ := by
    cases key with
    | error name => rintro r ⟨⟩
    | ok k =>
      cases value with
      | error name => rintro r ⟨⟩
      | ok v =>
        rintro r ⟨⟩ hnone
        rw [Resolution.targets_ofSides] at hnone
        exact Resolution.ofSides_eq_foreign_iff.mpr hnone

/-- What a resolver does not call foreign leads somewhere. -/
theorem Scope.Attains.exists_leadsTo {s : Scope} {m : Memo} (h : s.Attains m) {t : TypeRef}
    {r : Resolution} (hr : s.answers m t = .ok r) (hforeign : r ≠ .foreign) :
    ∃ target, (s.answers m).LeadsTo t target := by
  have hproper : Slot.Proper (s.answers m t) :=
    (recallType_gives (inherited_proper s) t m (h.all (inherited_proper s))).1
  obtain ⟨target, htarget⟩ := List.exists_mem_of_ne_nil r.targets fun hnone =>
    hforeign (hproper r hr hnone)
  exact ⟨target, r, hr, htarget⟩

end ClassDiagram
