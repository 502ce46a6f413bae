import ClassDiagram.Classification.Candidate
import ClassDiagram.Proofs.Signature

/-!
# Remembering changes no answer

The memo is keyed by written text, and looking a type up fills it for the parts of the
type on the way. This file shows that none of this can be seen from outside, as long as
the types that are asked for form a `Stock`: it holds the parts of its types, and two of
its types that are written alike resolve alike. Types without delimiters in their names
form one (`Stock.unambiguous`), because their signatures determine them.

The invariant is `Faithful`: every slot of the memo is the plain resolution of some type
of the stock that has the slot's key as its signature. `recallType_transparent` carries
it through one request, by recursion on the type: a hit reads a slot that the invariant
explains, a miss works the parts out from a memo that is still faithful and then
remembers the right outcome. `serve_transparent` carries it through any sequence of
requests.
-/

namespace ClassDiagram

/-- Types that can share one memo. -/
structure Stock (s : Scope) where
  Holds : TypeRef → Prop
  element : ∀ {t : TypeRef}, Holds (.array t) → Holds t
  argument : ∀ {name : String} {args : List TypeRef} {a : TypeRef},
    Holds (.named name args) → a ∈ args → Holds a
  agree : ∀ {t u : TypeRef}, Holds t → Holds u → t.signature = u.signature →
    s.resolve t = s.resolve u

namespace Stock

/-- The types whose names have no delimiters in them. -/
def unambiguous (s : Scope) : Stock s where
  Holds := TypeRef.Unambiguous
  element := TypeRef.Unambiguous.element
  argument := TypeRef.Unambiguous.argument
  agree ht hu h := by rw [TypeRef.eq_of_signature_eq ht hu h]

variable {s : Scope} (stock : Stock s)

/-- Every slot holds the plain resolution of a type of the stock that is written like the
slot's key. -/
def Faithful (m : Memo) : Prop :=
  ∀ key slot, m.slots[key]? = some slot →
    ∃ t, stock.Holds t ∧ key = t.signature ∧ slot = s.resolve t

theorem faithful_empty : stock.Faithful .empty := by
  intro key slot h
  simp [Memo.empty] at h

variable {stock}

theorem Faithful.hit {m : Memo} (h : stock.Faithful m) : stock.Faithful m.hit := h

theorem Faithful.miss {m : Memo} (h : stock.Faithful m) : stock.Faithful m.miss := h

/-- What a faithful memo holds for a type of the stock is the type's own resolution,
whichever type put it there. -/
theorem Faithful.slot_eq {m : Memo} (h : stock.Faithful m) {t : TypeRef}
    (ht : stock.Holds t) {slot : Slot} (hslot : m.slots[t.signature]? = some slot) :
    slot = s.resolve t := by
  obtain ⟨u, hu, hkey, rfl⟩ := h _ _ hslot
  exact stock.agree hu ht hkey.symm

theorem Faithful.remember {m : Memo} (h : stock.Faithful m) {t : TypeRef}
    (ht : stock.Holds t) : stock.Faithful (m.remember t.signature (s.resolve t)) := by
  intro key slot hslot
  rw [Memo.getElem?_remember] at hslot
  split at hslot
  next hkey =>
    subst hkey
    cases hold : m.slots[t.signature]? with
    | some old =>
      rw [hold] at hslot
      exact h _ _ (hold.trans hslot)
    | none =>
      rw [hold] at hslot
      exact ⟨t, ht, rfl, (Option.some.inj hslot).symm⟩
  next => exact h key slot hslot

/-- A computation that answers `a` from every faithful memo and leaves a faithful one. -/
def Transparent {α : Type} (stock : Stock s) (x : Remembering α) (a : α) : Prop :=
  ∀ m, stock.Faithful m → (x m).1 = a ∧ stock.Faithful (x m).2

theorem transparent_pure {α : Type} (a : α) : stock.Transparent (pure a) a :=
  fun _ h => ⟨rfl, h⟩

theorem Transparent.bind {α β : Type} {x : Remembering α} {f : α → Remembering β} {a : α}
    {b : β} (hx : stock.Transparent x a) (hf : stock.Transparent (f a) b) :
    stock.Transparent (x >>= f) b := by
  intro m hm
  obtain ⟨hval, hm'⟩ := hx m hm
  have hstep : (x >>= f) m = f a (x m).2 := by rw [← hval]; rfl
  rw [hstep]
  exact hf _ hm'

theorem Transparent.map {α β : Type} {x : Remembering α} {a : α} (f : α → β)
    (hx : stock.Transparent x a) : stock.Transparent (x >>= fun v => pure (f v)) (f a) :=
  hx.bind (transparent_pure _)

/-- Remembering under the signature of a type is transparent if working the type out is. -/
theorem Transparent.remembered {t : TypeRef} {compute : Remembering Slot}
    (ht : stock.Holds t) (hc : stock.Transparent compute (s.resolve t)) :
    stock.Transparent (Remembering.remembered t.signature compute) (s.resolve t) := by
  intro m hm
  cases hslot : m.slots[t.signature]? with
  | some slot =>
    rw [Remembering.remembered_of_some hslot]
    exact ⟨hm.slot_eq ht hslot, hm.hit⟩
  | none =>
    obtain ⟨hval, hm'⟩ := hc m.miss hm.miss
    rw [Remembering.remembered_of_none hslot, hval]
    have hfaithful := hm'.remember ht
    refine ⟨?_, hfaithful⟩
    -- the slot read back may be an older one, but it is right all the same
    cases hback : ((compute m.miss).2.remember t.signature (s.resolve t)).slots[t.signature]? with
    | none => rfl
    | some slot => exact hfaithful.slot_eq ht hback

end Stock

namespace Scope

open Stock

variable {s : Scope} (stock : Stock s)

mutual

/-- One request: the remembered resolution of a type of the stock is its plain one, and
what the request leaves in the memo is right. -/
theorem recallType_transparent : ∀ t : TypeRef, stock.Holds t →
    stock.Transparent (s.recallType t) (s.resolve t)
  | .array element, ht => by
    rw [recallType]
    refine Transparent.remembered ht ?_
    rw [resolve]
    exact (recallType_transparent element (stock.element ht)).map _
  | .named name args, ht => by
    rw [recallType]
    refine Transparent.remembered ht ?_
    rw [resolve]
    cases s.role name with
    | leaf outcome => exact transparent_pure _
    | mapLike => exact recallSides_transparent args fun a => stock.argument ht
    | wrapper w transparent =>
      exact recallElement_transparent w transparent args fun a => stock.argument ht

theorem recallSides_transparent : ∀ args : List TypeRef, (∀ a ∈ args, stock.Holds a) →
    stock.Transparent (s.recallSides args) (s.resolveSides args)
  | [], _ => transparent_pure _
  | [_], _ => transparent_pure _
  | _ :: _ :: _ :: _, _ => transparent_pure _
  | [key, value], h => by
    have hkey := recallType_transparent key (h key (by simp))
    have hvalue := recallType_transparent value (h value (by simp))
    rw [recallSides, resolveSides]
    refine hkey.bind ?_
    -- a failure on the key's side stands, and the value's side is not looked at
    cases s.resolve key with
    | error name => exact transparent_pure _
    | ok k =>
      refine hvalue.bind ?_
      cases s.resolve value with
      | error name => exact transparent_pure _
      | ok v => exact transparent_pure _

theorem recallElement_transparent (w : Wrapper) (transparent : Bool) :
    ∀ args : List TypeRef, (∀ a ∈ args, stock.Holds a) →
      stock.Transparent (s.recallElement w transparent args) (s.resolveElement w transparent args)
  | [], _ => transparent_pure _
  | [element], h => by
    rw [recallElement, resolveElement]
    exact (recallType_transparent element (h element (by simp))).map _
  | _ :: next :: rest, h => by
    rw [recallElement, resolveElement]
    exact recallElement_transparent w transparent (next :: rest)
      fun a ha => h a (List.mem_cons_of_mem _ ha)

end

/-- A request made on behalf of an entity: its answer is the plain resolution, and a
failure is laid at the door of the entity that asks now. -/
theorem resolveFor_transparent {t : TypeRef} (ht : stock.Holds t) (entity : String) :
    stock.Transparent ((Resolver.remembering s).resolveFor entity t).run
      ((s.resolve t).mapError (.unresolvedType entity)) := by
  rw [Resolver.run_resolveFor]
  exact (recallType_transparent stock t ht).map _

/-- Requests served one after the other, each a type and the entity that asks for it: the
answer to each, and the memo it leaves behind. -/
def serve (s : Scope) : List (TypeRef × String) → Memo →
    List (Except AnalysisError Resolution × Memo)
  | [], _ => []
  | (t, entity) :: rest, m =>
    let (answer, m') := ((Resolver.remembering s).resolveFor entity t).run.run m
    (answer, m') :: serve s rest m'

/-- A run of requests from any faithful memo: each answer is the plain one, each memo on
the way faithful. -/
theorem serve_faithful : ∀ (requests : List (TypeRef × String)) {m : Memo}, stock.Faithful m →
    (∀ q ∈ requests, stock.Holds q.1) →
    ∀ (i : Nat) (t : TypeRef) (entity : String), requests[i]? = some (t, entity) →
      ∃ m', (s.serve requests m)[i]?
          = some ((s.resolve t).mapError (.unresolvedType entity), m')
        ∧ stock.Faithful m'
  | [], _, _, _, i, t, entity, hi => by simp at hi
  | (t₀, entity₀) :: rest, m, hm, hq, i, t, entity, hi => by
    have ht₀ : stock.Holds t₀ := hq (t₀, entity₀) List.mem_cons_self
    obtain ⟨hanswer, hm'⟩ := resolveFor_transparent stock ht₀ entity₀ m hm
    rw [serve]
    cases i with
    | zero =>
      rw [List.getElem?_cons_zero, Option.some.injEq, Prod.mk.injEq] at hi
      obtain ⟨rfl, rfl⟩ := hi
      exact ⟨_, congrArg some (Prod.ext hanswer rfl), hm'⟩
    | succ i =>
      rw [List.getElem?_cons_succ] at hi
      exact serve_faithful rest hm' (fun q hmem => hq q (List.mem_cons_of_mem _ hmem)) i t entity hi

/-- **Remembering is transparent.** Whatever is known and however unknown types are
treated: in any sequence of requests for types without delimiters in their names, served
by one resolver that starts with nothing remembered, the answer to the `i`-th request is
the plain resolution of its type, a failure being reported against the entity of that
very request; and after each request every remembered slot is the plain resolution of a
type with the slot's key as its signature. -/
theorem serve_transparent (s : Scope) (requests : List (TypeRef × String))
    (h : ∀ q ∈ requests, q.1.Unambiguous) (i : Nat) (t : TypeRef) (entity : String)
    (hi : requests[i]? = some (t, entity)) :
    ∃ memo, (s.serve requests .empty)[i]?
        = some ((s.resolve t).mapError (.unresolvedType entity), memo)
      ∧ ∀ key slot, memo.slots[key]? = some slot →
          ∃ u : TypeRef, key = u.signature ∧ slot = s.resolve u := by
  let stock := Stock.unambiguous s
  obtain ⟨memo, hserved, hfaithful⟩ :=
    serve_faithful stock requests stock.faithful_empty h i t entity hi
  refine ⟨memo, hserved, fun key slot hslot => ?_⟩
  obtain ⟨u, -, hkey, hval⟩ := hfaithful key slot hslot
  exact ⟨u, hkey, hval⟩

/-- Where nothing is known and the unknown is an error, `Widget` cannot be resolved, and
neither can a list of it. -/
theorem resolve_unknown_list :
    Scope.resolve ⟨.empty, { strict := true }⟩ (.named "List" [.plain "Widget"])
      = .error "Widget" := by
  have hlist : Scope.role ⟨.empty, { strict := true }⟩ "List" = .wrapper .list false := by
    rw [role, TypeTable.lookup_empty]
    rfl
  have hwidget : Scope.role ⟨.empty, { strict := true }⟩ "Widget" = .leaf (.error "Widget") := by
    rw [role, TypeTable.lookup_empty]
    rfl
  rw [resolve, hlist]
  show Except.map _ (resolve _ (.named "Widget" [])) = _
  rw [resolve, hwidget]
  rfl

/-- Two entities ask in turn for a list of something unknown, where that is an error. The
second gets its answer from memory, and the error is its own. -/
theorem serve_transparent_unknown_list :
    ∃ memo, (Scope.serve ⟨.empty, { strict := true }⟩
        [(.named "List" [.plain "Widget"], "Hub"), (.named "List" [.plain "Widget"], "Panel")]
        .empty)[1]? = some (.error (.unresolvedType "Panel" "Widget"), memo) := by
  obtain ⟨memo, hserved, -⟩ := serve_transparent ⟨.empty, { strict := true }⟩
    [(.named "List" [.plain "Widget"], "Hub"), (.named "List" [.plain "Widget"], "Panel")]
    (by decide) 1 _ _ rfl
  rw [resolve_unknown_list] at hserved
  exact ⟨memo, hserved⟩

end Scope

end ClassDiagram
