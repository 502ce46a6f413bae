import ClassDiagram.Classification.Edges
import ClassDiagram.Proofs.Transparency

/-!
# Classification as a consultation

Classification reads a declaration and asks a resolver for types; which type it asks for
next may depend on the answers so far. `Consults` makes this precise: a computation on the
memo is a tree of questions, all about types of a given kind, and beside it stands the
same computation on a table of answers. `relationships_consults` shows that all of
classification is such a tree, and that it only asks for the types a declaration holds
(`ClassDecl.types`).

Three things follow for every such computation, each by one induction over the tree.
From a memo that is faithful to a stock of types it computes what the plain resolver
would make of it (`Consults.transparent`). Its outcome depends on the answers for the
types it may ask for and on nothing else (`Consults.congr`). And from *any* memo, right
or wrong, it computes what comes out if every question is answered as the resolver would
answer it afterwards (`Consults.run_eq_of_extends`): an outcome once remembered is never
replaced (`recallType_extends`), so the resolver stands by the answers it gave.
-/

namespace ClassDiagram

/-! ## A memo only grows -/

/-- An answer for every type. -/
abbrev Answers := TypeRef → Slot

/-- Everything remembered in `m` is remembered in `m'`. -/
def Memo.Extends (m m' : Memo) : Prop :=
  ∀ (key : String) (slot : Slot), m.slots[key]? = some slot → m'.slots[key]? = some slot

namespace Memo

/-- A memo remembers what it remembers. -/
theorem Extends.refl (m : Memo) : m.Extends m :=
  fun _ _ h => h

/-- What is kept twice is kept. -/
theorem Extends.trans {m₁ m₂ m₃ : Memo} (h₁ : m₁.Extends m₂) (h₂ : m₂.Extends m₃) :
    m₁.Extends m₃ :=
  fun key slot h => h₂ key slot (h₁ key slot h)

/-- Remembering something new overwrites nothing. -/
theorem extends_remember (m : Memo) (key : String) (slot : Slot) :
    m.Extends (m.remember key slot) := by
  intro k old h
  rw [getElem?_remember, h]
  split <;> rfl

end Memo

/-- A computation that forgets nothing. -/
def Remembering.Grows {α : Type} (x : Remembering α) : Prop :=
  ∀ m : Memo, m.Extends (x m).2

namespace Remembering

/-- A computation without a question changes nothing. -/
theorem grows_pure {α : Type} (a : α) : Grows (pure a) :=
  fun m => Memo.Extends.refl m

/-- Two computations that forget nothing forget nothing together. -/
theorem Grows.bind {α β : Type} {x : Remembering α} {f : α → Remembering β} (hx : x.Grows)
    (hf : ∀ a, (f a).Grows) : (x >>= f).Grows :=
  fun m => (hx m).trans (hf (x m).1 (x m).2)

/-- An answer that is looked up or worked out is added at most. -/
theorem Grows.remembered {key : String} {compute : Remembering Slot} (hc : compute.Grows) :
    (remembered key compute).Grows := by
  intro m
  cases h : m.slots[key]? with
  | some slot =>
    rw [remembered_of_some h]
    exact Memo.Extends.refl m
  | none =>
    rw [remembered_of_none h]
    exact Memo.Extends.trans (hc m.miss) (Memo.extends_remember _ _ _)

/-- What `remembered` answers is what the memo holds from then on. -/
theorem remembered_installs (key : String) (compute : Remembering Slot) (m : Memo) :
    (remembered key compute m).2.slots[key]? = some (remembered key compute m).1 := by
  cases h : m.slots[key]? with
  | some slot =>
    rw [remembered_of_some h]
    exact h
  | none =>
    -- what is read back is what the memo holds, whoever put it there
    rw [remembered_of_none h, Memo.getElem?_remember, if_pos rfl]
    rfl

end Remembering

namespace Scope

open Remembering

variable (s : Scope)

mutual

/-- Resolving a type forgets nothing. -/
theorem recallType_extends : ∀ t : TypeRef, (s.recallType t).Grows
  | .array element => by
    rw [recallType]
    exact Grows.remembered ((recallType_extends element).bind fun _ => grows_pure _)
  | .named name args => by
    rw [recallType]
    refine Grows.remembered ?_
    cases s.role name with
    | leaf outcome => exact grows_pure _
    | mapLike => exact recallSides_extends args
    | wrapper w transparent => exact recallElement_extends w transparent args

/-- The sides of a pair are resolved one after the other and kept. -/
theorem recallSides_extends : ∀ args : List TypeRef, (s.recallSides args).Grows
  | [] => grows_pure _
  | [_] => grows_pure _
  | _ :: _ :: _ :: _ => grows_pure _
  | [key, value] => by
    rw [recallSides]
    refine (recallType_extends key).bind fun slot => ?_
    cases slot with
    | error name => exact grows_pure _
    | ok k =>
      refine (recallType_extends value).bind fun slot => ?_
      cases slot with
      | error name => exact grows_pure _
      | ok v => exact grows_pure _

/-- So is the element of a collection. -/
theorem recallElement_extends (w : Wrapper) (transparent : Bool) :
    ∀ args : List TypeRef, (s.recallElement w transparent args).Grows
  | [] => grows_pure _
  | [element] => by
    rw [recallElement]
    exact (recallType_extends element).bind fun _ => grows_pure _
  | _ :: next :: rest => by
    rw [recallElement]
    exact recallElement_extends w transparent (next :: rest)

end

/-- The answer for a type is in the memo from then on. -/
theorem recallType_installs (t : TypeRef) (m : Memo) :
    (s.recallType t m).2.slots[t.signature]? = some (s.recallType t m).1 := by
  cases t with
  | array element =>
    rw [recallType]
    exact remembered_installs _ _ _
  | named name args =>
    rw [recallType]
    exact remembered_installs _ _ _

/-- What a resolver with the memo `m` answers when it is asked for a type. -/
def answers (m : Memo) : Answers := fun t =>
  (s.recallType t m).1

/-- A remembered type is answered from memory. -/
theorem recallType_of_slot {m : Memo} {t : TypeRef} {slot : Slot}
    (h : m.slots[t.signature]? = some slot) : s.recallType t m = (slot, m.hit) := by
  cases t with
  | array element => rw [recallType, remembered_of_some h]
  | named name args => rw [recallType, remembered_of_some h]

/-- A new name that settles its type is answered by what it says. -/
theorem answers_of_leaf {m : Memo} {name : String} {args : List TypeRef} {outcome : Slot}
    (hrole : s.role name = .leaf outcome)
    (hnew : m.slots[(TypeRef.named name args).signature]? = none) :
    s.answers m (.named name args) = outcome := by
  rw [answers, recallType, hrole, remembered_of_none hnew, Memo.getElem?_remember, if_pos rfl]
  show m.slots[(TypeRef.named name args).signature]?.getD outcome = outcome
  rw [hnew]
  rfl

/-- What the memo holds for a type is the answer for it. -/
theorem answers_of_slot {m : Memo} {t : TypeRef} {slot : Slot}
    (h : m.slots[t.signature]? = some slot) : s.answers m t = slot := by
  rw [answers, recallType_of_slot s h]

end Scope

/-! ## Trees of questions -/

/-- The resolver that reads off a table of answers. -/
def Resolver.ofAnswers (answers : Answers) : Resolver Id :=
  fun t => pure (answers t)

/-- The computation `x` asks the resolver for types of the kind `P` and does nothing else
with the memo; `y` is what it comes to, as a function of the answers. -/
inductive Consults (s : Scope) (P : TypeRef → Prop) {α : Type} :
    Remembering α → (Answers → Id α) → Prop
  | done (a : α) : Consults s P (pure a) (fun _ => pure a)
  | ask {t : TypeRef} {x : Slot → Remembering α} {y : Slot → Answers → Id α}
      (ht : P t) (hx : ∀ slot, Consults s P (x slot) (y slot)) :
      Consults s P (s.recallType t >>= x) (fun answers => y (answers t) answers)

namespace Consults

variable {s : Scope} {P : TypeRef → Prop} {α β : Type}

/-- From a faithful memo the plain answers are given, if the stock has all that may be
asked for. -/
theorem transparent (stock : Stock s) {x : Remembering α} {y : Answers → Id α}
    (h : Consults s P x y) (hP : ∀ t, P t → stock.Holds t) :
    stock.Transparent x (y s.resolve) := by
  induction h with
  | done a => exact Stock.transparent_pure a
  | ask ht _ ih => exact (s.recallType_transparent stock _ (hP _ ht)).bind (ih _)

/-- Only the answers for what may be asked for count. -/
theorem congr {x : Remembering α} {y : Answers → Id α} (h : Consults s P x y)
    {a b : Answers} (hab : ∀ t, P t → a t = b t) : y a = y b := by
  induction h with
  | done _ => rfl
  | ask ht _ ih =>
    dsimp only
    rw [hab _ ht]
    exact ih _

/-- A consultation forgets nothing, for its questions do not. -/
theorem grows {x : Remembering α} {y : Answers → Id α} (h : Consults s P x y) :
    x.Grows := by
  induction h with
  | done a => exact Remembering.grows_pure a
  | ask _ _ ih => exact (s.recallType_extends _).bind ih

/-- From any memo the outcome is the one for the answers that the resolver would give when
all is done, or at any time after that. -/
theorem run_eq_of_extends {x : Remembering α} {y : Answers → Id α} (h : Consults s P x y)
    {m later : Memo} (hlater : (x m).2.Extends later) : (x m).1 = y (s.answers later) := by
  induction h generalizing m with
  | done a => rfl
  | @ask t x y _ hx ih =>
    -- the question for `t` is answered first, and this answer is still there later on
    have hstep : (s.recallType t >>= x) m = x (s.recallType t m).1 (s.recallType t m).2 := rfl
    rw [hstep] at hlater ⊢
    have hkept := (hx (s.recallType t m).1).grows _ _ _ (s.recallType_installs t m)
    dsimp only
    rw [s.answers_of_slot (hlater _ _ hkept)]
    exact ih _ hlater

/-- A consultation that may only ask for `t`, and to which the answer makes a difference,
does ask for it. What the resolver says then is remembered. -/
theorem slot_of_ne {x : Remembering α} {y : Answers → Id α} (h : Consults s P x y)
    {t : TypeRef} (ht : ∀ u, P u → u = t) {a b : Answers} (hne : y a ≠ y b) (m : Memo) :
    (x m).2.slots[t.signature]? = some (s.answers m t) := by
  cases h with
  | done c => exact absurd rfl hne
  | @ask u x y hu hx =>
    obtain rfl := ht u hu
    exact (hx _).grows _ _ _ (s.recallType_installs u m)

/-- Which questions come next may depend on the first computation. -/
theorem bind {x : Remembering α} {f : α → Remembering β} {y : Answers → Id α}
    {g : α → Answers → Id β} (hx : Consults s P x y)
    (hf : ∀ a, Consults s P (f a) (g a)) :
    Consults s P (x >>= f) (fun answers => y answers >>= fun a => g a answers) := by
  induction hx with
  | done a =>
    rw [pure_bind]
    exact hf a
  | ask ht _ ih =>
    rw [bind_assoc]
    exact .ask ht ih

/-- A single question. -/
theorem question {t : TypeRef} (ht : P t) :
    Consults s P (Resolver.remembering s t)
      (fun answers => Resolver.ofAnswers answers t) := by
  have h : Consults s P (s.recallType t >>= pure) (fun answers => pure (answers t)) :=
    .ask ht fun slot => .done slot
  rwa [bind_pure] at h

/-- A search for one element stops at the first that is found, with and without a memo. -/
theorem anyM {l : List α} {p : α → Remembering Bool} {q : α → Answers → Id Bool}
    (h : ∀ a ∈ l, Consults s P (p a) (q a)) :
    Consults s P (l.anyM p) (fun answers => l.anyM fun a => q a answers) := by
  induction l with
  | nil => exact .done false
  | cons a l ih =>
    simp only [List.anyM]
    refine (h a List.mem_cons_self).bind fun found => ?_
    cases found with
    | true => exact .done true
    | false => exact ih fun b hb => h b (List.mem_cons_of_mem _ hb)

/-- A search for a counterexample stops at the first, with and without a memo. -/
theorem allM {l : List α} {p : α → Remembering Bool} {q : α → Answers → Id Bool}
    (h : ∀ a ∈ l, Consults s P (p a) (q a)) :
    Consults s P (l.allM p) (fun answers => l.allM fun a => q a answers) := by
  induction l with
  | nil => exact .done true
  | cons a l ih =>
    simp only [List.allM]
    refine (h a List.mem_cons_self).bind fun found => ?_
    cases found with
    | false => exact .done false
    | true => exact ih fun b hb => h b (List.mem_cons_of_mem _ hb)

end Consults

/-- The same for computations that can fail. -/
def ConsultsOrFails (s : Scope) (P : TypeRef → Prop) {ε α : Type}
    (x : ExceptT ε Remembering α) (y : Answers → ExceptT ε Id α) : Prop :=
  Consults s P x.run fun answers => (y answers).run

namespace ConsultsOrFails

variable {s : Scope} {P : TypeRef → Prop} {ε α β : Type}

/-- Giving an answer without a question. -/
theorem done (a : α) : ConsultsOrFails (ε := ε) s P (pure a) (fun _ => pure a) := by
  unfold ConsultsOrFails
  simp only [ExceptT.run_pure]
  exact Consults.done (Except.ok a)

/-- A failure ends the questions on both sides. -/
theorem bind {x : ExceptT ε Remembering α} {f : α → ExceptT ε Remembering β}
    {y : Answers → ExceptT ε Id α} {g : α → Answers → ExceptT ε Id β}
    (hx : ConsultsOrFails s P x y) (hf : ∀ a, ConsultsOrFails s P (f a) (g a)) :
    ConsultsOrFails s P (x >>= f) (fun answers => y answers >>= fun a => g a answers) := by
  unfold ConsultsOrFails
  simp only [ExceptT.run_bind]
  refine Consults.bind hx fun outcome => ?_
  -- after a failure nothing more is asked
  cases outcome with
  | ok a => exact hf a
  | error e => exact Consults.done (Except.error e)

/-- A computation that cannot fail asks as before. -/
theorem lift {x : Remembering α} {y : Answers → Id α} (hx : Consults s P x y) :
    ConsultsOrFails (ε := ε) s P (ExceptT.lift x) (fun answers => ExceptT.lift (y answers)) := by
  unfold ConsultsOrFails
  simp only [ExceptT.run_lift, map_eq_pure_bind]
  exact hx.bind fun a => Consults.done (Except.ok a)

/-- One element after the other, up to the first failure. -/
theorem mapM {l : List α} {f : α → ExceptT ε Remembering β}
    {g : α → Answers → ExceptT ε Id β}
    (h : ∀ a ∈ l, ConsultsOrFails s P (f a) (g a)) :
    ConsultsOrFails s P (l.mapM f) (fun answers => l.mapM fun a => g a answers) := by
  induction l with
  | nil =>
    simp only [List.mapM_nil]
    exact done []
  | cons a l ih =>
    simp only [List.mapM_cons]
    refine (h a List.mem_cons_self).bind fun b => ?_
    exact (ih fun c hc => h c (List.mem_cons_of_mem _ hc)).bind fun bs => done (b :: bs)

/-- What a run comes to, from any memo, is what the answers at its end come to, or those at
any time after that. -/
theorem run_eq_ok_of_extends {x : ExceptT ε Remembering α} {y : Answers → ExceptT ε Id α}
    (h : ConsultsOrFails s P x y) {m m' later : Memo} {a : α} (hrun : x.run m = (.ok a, m'))
    (hlater : m'.Extends later) : (y (s.answers later)).run = .ok a := by
  have hend : (x.run m).2.Extends later → (x.run m).1 = (y (s.answers later)).run :=
    Consults.run_eq_of_extends h
  rw [hrun] at hend
  exact (hend hlater).symm

/-- An outcome is the one that the answers remembered at the end would give. -/
theorem run_eq_ok {x : ExceptT ε Remembering α} {y : Answers → ExceptT ε Id α}
    (h : ConsultsOrFails s P x y) {m m' : Memo} {a : α} (hrun : x.run m = (.ok a, m')) :
    (y (s.answers m')).run = .ok a :=
  h.run_eq_ok_of_extends hrun (Memo.Extends.refl m')

/-- A run that succeeds leaves a memo that has all that was remembered before. -/
theorem extends_of_run {x : ExceptT ε Remembering α} {y : Answers → ExceptT ε Id α}
    (h : ConsultsOrFails s P x y) {m m' : Memo} {o : Except ε α} (hrun : x.run m = (o, m')) :
    m.Extends m' := by
  have hgrows := Consults.grows h m
  rwa [show x.run m = (o, m') from hrun] at hgrows

/-- A question on behalf of an entity. -/
theorem question {t : TypeRef} (ht : P t) (entity : String) :
    ConsultsOrFails s P ((Resolver.remembering s).resolveFor entity t)
      (fun answers => (Resolver.ofAnswers answers).resolveFor entity t) := by
  unfold ConsultsOrFails
  simp only [Resolver.run_resolveFor]
  exact (Consults.question ht).bind fun slot => .done _

end ConsultsOrFails

/-! ## The types of a declaration -/

/-- The type of which an initializer makes an instance. -/
def Initializer.types : Initializer → List TypeRef
  | .construct type => [type]
  | _ => []

/-- The type of which an assignment makes an instance. -/
def AssignSource.types : AssignSource → List TypeRef
  | .construct type => [type]
  | _ => []

/-- The types in a constructor or method, but for its result. -/
def MethodDecl.types (method : MethodDecl) : List TypeRef :=
  method.params.map (·.type) ++ method.body.locals.map (·.type)
    ++ method.body.staticCalls.map (·.type)
    ++ method.body.fieldAssignments.flatMap (·.source.types)

namespace ClassDecl

/-- The types in a declaration, but for the results of its methods: all that
classification may ask for. -/
def types (decl : ClassDecl) : List TypeRef :=
  decl.supertypes.map (·.type)
    ++ decl.fields.flatMap (fun f => f.type :: f.initializer.types)
    ++ decl.callables.flatMap (·.types)

variable {decl : ClassDecl}

/-- The type of a supertype is one of the declaration. -/
theorem supertype_mem_types {sup : Supertype} (h : sup ∈ decl.supertypes) :
    sup.type ∈ decl.types := by
  refine List.mem_append_left _ (List.mem_append_left _ ?_)
  exact List.mem_map_of_mem h

theorem field_mem_types {f : FieldDecl} (h : f ∈ decl.fields) : f.type ∈ decl.types := by
  refine List.mem_append_left _ (List.mem_append_right _ ?_)
  exact List.mem_flatMap.mpr ⟨f, h, List.mem_cons_self⟩

/-- So is a type that an initializer makes. -/
theorem initializer_mem_types {f : FieldDecl} (h : f ∈ decl.fields) {t : TypeRef}
    (ht : f.initializer = .construct t) : t ∈ decl.types := by
  refine List.mem_append_left _ (List.mem_append_right _ ?_)
  refine List.mem_flatMap.mpr ⟨f, h, List.mem_cons_of_mem _ ?_⟩
  rw [ht]
  exact List.mem_cons_self

/-- All types in a constructor or method belong to the declaration. -/
theorem callable_mem_types {method : MethodDecl} (h : method ∈ decl.callables) {t : TypeRef}
    (ht : t ∈ method.types) : t ∈ decl.types :=
  List.mem_append_right _ (List.mem_flatMap.mpr ⟨method, h, ht⟩)

/-- The types of parameters and local variables do. -/
theorem transient_mem_types {method : MethodDecl} (h : method ∈ decl.callables) {b : Binding}
    (hb : b ∈ method.transients) : b.type ∈ decl.types := by
  refine callable_mem_types h (List.mem_append_left _ (List.mem_append_left _ ?_))
  rcases List.mem_append.mp hb with hparam | hlocal
  · exact List.mem_append_left _ (List.mem_map_of_mem (List.mem_filter.mp hparam).1)
  · exact List.mem_append_right _ (List.mem_map_of_mem hlocal)

/-- The receivers of static calls do. -/
theorem staticCall_mem_types {method : MethodDecl} (h : method ∈ decl.callables)
    {c : StaticCall} (hc : c ∈ method.body.staticCalls) : c.type ∈ decl.types := by
  refine callable_mem_types h (List.mem_append_left _ (List.mem_append_right _ ?_))
  exact List.mem_map_of_mem hc

/-- The types that assignments make do. -/
theorem assignment_mem_types {method : MethodDecl} (h : method ∈ decl.callables)
    {a : FieldAssignment} (ha : a ∈ method.body.fieldAssignments) {t : TypeRef}
    (ht : a.source = .construct t) : t ∈ decl.types := by
  refine callable_mem_types h (List.mem_append_right _ ?_)
  refine List.mem_flatMap.mpr ⟨a, ha, ?_⟩
  rw [ht]
  exact List.mem_cons_self

theorem ownConstructor_mem_callables {c : MethodDecl} (h : c ∈ decl.ownConstructors) :
    c ∈ decl.callables :=
  List.mem_append_left _ (List.mem_filter.mp h).1

/-! ## Classification consults -/

variable (s : Scope)

/-- Whether a type is made that leads to the target is asked of this type alone. -/
theorem constructs_consults (target : String) {t : TypeRef} (ht : t ∈ decl.types) :
    Consults s (· ∈ decl.types) (constructs (Resolver.remembering s) target t)
      (fun answers => constructs (Resolver.ofAnswers answers) target t) := by
  unfold constructs
  refine (Consults.question ht).bind fun slot => ?_
  match slot with
  | .ok (.scalar u) => exact .done (u == target)
  | .ok .foreign | .ok (.optional _) | .ok (.list _) | .ok (.set _) | .ok (.map _ _)
  | .error _ => exact .done false

/-- A constructor asks for the types that its assignments make. -/
theorem constructorBuilds_consults (field target : String) {c : MethodDecl}
    (hc : c ∈ decl.callables) :
    Consults s (· ∈ decl.types) (constructorBuilds (Resolver.remembering s) field target c)
      (fun answers => constructorBuilds (Resolver.ofAnswers answers) field target c) := by
  unfold constructorBuilds
  refine Consults.anyM fun a ha => ?_
  unfold assignsFresh
  split
  · cases hsource : a.source with
    | construct t => exact constructs_consults s target (assignment_mem_types hc ha hsource)
    | parameter p => exact .done false
    | other => exact .done false
  · exact .done false

/-- An initializer asks for the type that it makes. -/
theorem initializerBuilds_consults (target : String) {f : FieldDecl} (hf : f ∈ decl.fields) :
    Consults s (· ∈ decl.types) (initializerBuilds (Resolver.remembering s) target f.initializer)
      (fun answers => initializerBuilds (Resolver.ofAnswers answers) target f.initializer) := by
  cases hinit : f.initializer with
  | absent => exact .done false
  | construct t => exact constructs_consults s target (initializer_mem_types hf hinit)
  | other => exact .done false

/-- Clues to who owns what are looked for in all constructors, as far as needed. -/
theorem ownershipClue_consults {f : FieldDecl} (hf : f ∈ decl.fields) (target : String) :
    Consults s (· ∈ decl.types) (decl.ownershipClue (Resolver.remembering s) f target)
      (fun answers => decl.ownershipClue (Resolver.ofAnswers answers) f target) := by
  unfold ownershipClue
  split
  · exact .done _
  · refine (initializerBuilds_consults s target hf).bind fun atDeclaration => ?_
    cases atDeclaration with
    | true => exact .done _
    | false =>
      simp only [Bool.false_eq_true, if_false]
      split
      · exact .done _
      · refine (Consults.allM fun c hc =>
          constructorBuilds_consults s f.name target (ownConstructor_mem_callables hc)).bind
            fun everywhere => ?_
        cases everywhere with
        | true => exact .done _
        | false => exact .done _

/-- A field asks for its own type and then for clues. -/
theorem storedMember_consults {f : FieldDecl} (hf : f ∈ decl.fields) :
    ConsultsOrFails s (· ∈ decl.types) (decl.storedMember (Resolver.remembering s) f)
      (fun answers => decl.storedMember (Resolver.ofAnswers answers) f) := by
  unfold storedMember
  refine (ConsultsOrFails.question (field_mem_types hf) decl.name).bind fun resolution => ?_
  cases resolution with
  | scalar target =>
    exact (ConsultsOrFails.lift (ownershipClue_consults s hf target)).bind fun _ => .done _
  | foreign | optional _ | list _ | set _ | map _ _ =>
    exact ConsultsOrFails.done _

/-- All fields are asked about, one after the other. -/
theorem fieldCandidates_consults (decl : ClassDecl) :
    ConsultsOrFails s (· ∈ decl.types) (decl.fieldCandidates (Resolver.remembering s))
      (fun answers => decl.fieldCandidates (Resolver.ofAnswers answers)) := by
  unfold fieldCandidates
  exact (ConsultsOrFails.mapM fun f hf => storedMember_consults s hf).bind fun _ => .done _

/-- Supertypes ask for nothing but themselves. -/
theorem supertypeCandidates_consults (decl : ClassDecl) :
    ConsultsOrFails s (· ∈ decl.types) (decl.supertypeCandidates (Resolver.remembering s))
      (fun answers => decl.supertypeCandidates (Resolver.ofAnswers answers)) := by
  unfold supertypeCandidates
  refine (ConsultsOrFails.mapM fun sup hsup => ?_).bind fun _ => .done _
  unfold supertypeCandidate
  refine (ConsultsOrFails.question (supertype_mem_types hsup) decl.name).bind fun resolution => ?_
  cases resolution with
  | scalar target =>
    dsimp only
    split
    · exact .done _
    · exact .done _
  | foreign | optional _ | list _ | set _ | map _ _ => exact .done _

/-- A method asks for what it only uses and for what it calls by a type name. -/
theorem methodUsages_consults {method : MethodDecl} (hm : method ∈ decl.callables) :
    ConsultsOrFails s (· ∈ decl.types) (decl.methodUsages (Resolver.remembering s) method)
      (fun answers => decl.methodUsages (Resolver.ofAnswers answers) method) := by
  unfold methodUsages
  -- the transient references, then the static calls
  refine (ConsultsOrFails.mapM fun b hb => ?_).bind fun references => ?_
  · exact (ConsultsOrFails.question (transient_mem_types hm hb) decl.name).bind fun _ => .done _
  refine (ConsultsOrFails.mapM fun c hc => ?_).bind fun statics => .done _
  unfold resolveReceiver
  refine ConsultsOrFails.bind ?_ fun _ => .done _
  refine (ConsultsOrFails.question (staticCall_mem_types hm hc) decl.name).bind fun resolution => ?_
  cases resolution with
  | scalar target => exact .done _
  | foreign | optional _ | list _ | set _ | map _ _ => exact .done _

/-- Usages are asked about method by method. -/
theorem usageCandidates_consults (decl : ClassDecl) :
    ConsultsOrFails s (· ∈ decl.types) (decl.usageCandidates (Resolver.remembering s))
      (fun answers => decl.usageCandidates (Resolver.ofAnswers answers)) := by
  unfold usageCandidates storedTargets
  refine ConsultsOrFails.bind ?_ fun stored => ?_
  · refine (ConsultsOrFails.mapM fun f hf => ?_).bind fun _ => .done _
    exact ConsultsOrFails.question (field_mem_types hf) decl.name
  · exact (ConsultsOrFails.mapM fun m hm => methodUsages_consults s hm).bind fun _ => .done _

/-- **Classification is a consultation** about the types of the declaration. -/
theorem relationships_consults (decl : ClassDecl) :
    ConsultsOrFails s (· ∈ decl.types) (decl.relationships (Resolver.remembering s))
      (fun answers => decl.relationships (Resolver.ofAnswers answers)) := by
  unfold relationships
  refine (supertypeCandidates_consults s decl).bind fun _ => ?_
  refine (fieldCandidates_consults s decl).bind fun _ => ?_
  exact (usageCandidates_consults s decl).bind fun _ => .done _

end ClassDecl

end ClassDiagram
