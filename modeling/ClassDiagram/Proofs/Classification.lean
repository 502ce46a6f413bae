import ClassDiagram.Proofs.Consultation
import ClassDiagram.Proofs.FirstOccurrences

/-!
# What classification computes

The classification of a declaration is written for any resolver in any monad. Given the
answers, it is a plain function of the declaration: it fails with the first type, in the
order of `ClassDecl.required`, that cannot be resolved, and otherwise its edges are those
of `ClassDecl.edgesFrom`. `relationships_yields` says so, with one small lemma for each
function on the way, so that everything below is about lists and not about effects.

Together with the consultation theorems this describes the remembering resolver, whatever
its memo holds at the start: `relationships_run` reads its outcome off the answers that
it gives in the end.
-/

namespace ClassDiagram

/-! ## Computations that fail with a name -/

namespace Answers

/-- The name for which a type cannot be resolved. -/
def unresolved? (answers : Answers) (t : TypeRef) : Option String :=
  match answers t with
  | .ok _ => none
  | .error name => some name

/-- The resolution of a type; foreign if it has none. -/
def resolution (answers : Answers) (t : TypeRef) : Resolution :=
  match answers t with
  | .ok r => r
  | .error _ => .foreign

end Answers

/-- On behalf of `entity` the computation fails for the name in `failure`, if there is
one, and otherwise comes to `a`. -/
def Yields {α : Type} (entity : String) (x : ExceptT AnalysisError Id α)
    (failure : Option String) (a : α) : Prop :=
  x.run = match failure with
    | some name => .error (.unresolvedType entity name)
    | none => .ok a

namespace Yields

variable {α β : Type} {entity : String}

/-- An answer without a question cannot fail. -/
theorem done (a : α) : Yields entity (pure a) none a := rfl

/-- The first failure counts, and without one the answer is made of both parts. -/
theorem bind {x : ExceptT AnalysisError Id α} {f : α → ExceptT AnalysisError Id β}
    {failure failure' : Option String} {a : α} {b : β} (hx : Yields entity x failure a)
    (hf : Yields entity (f a) failure' b) :
    Yields entity (x >>= f) (failure.or failure') b := by
  unfold Yields at hx hf ⊢
  rw [ExceptT.run_bind, hx]
  cases failure with
  | some name => rfl
  | none => exact hf

/-- What follows cannot fail. -/
theorem andThen {x : ExceptT AnalysisError Id α} {f : α → ExceptT AnalysisError Id β}
    {failure : Option String} {a : α} {b : β} (hx : Yields entity x failure a)
    (hf : Yields entity (f a) none b) : Yields entity (x >>= f) failure b := by
  have h := hx.bind hf
  rwa [Option.or_none] at h

/-- What is made of an answer fails as the answer does. -/
theorem map {x : ExceptT AnalysisError Id α} {failure : Option String} {a : α}
    (f : α → β) (hx : Yields entity x failure a) :
    Yields entity (x >>= fun v => pure (f v)) failure (f a) :=
  hx.andThen (done (f a))

/-- What never fails is done at once. -/
theorem lift {x : Id α} (f : α → β) :
    Yields entity (ExceptT.lift x >>= fun v => pure (f v)) none (f x.run) := rfl

/-- Of a list, the first failure counts. -/
theorem mapM {l : List α} {f : α → ExceptT AnalysisError Id β} {failure : α → Option String}
    {g : α → β} (h : ∀ a ∈ l, Yields entity (f a) (failure a) (g a)) :
    Yields entity (l.mapM f) (l.findSome? failure) (l.map g) := by
  induction l with
  | nil => rw [List.mapM_nil]; exact done []
  | cons a l ih =>
    rw [List.mapM_cons]
    have hrest := ih fun b hb => h b (List.mem_cons_of_mem _ hb)
    have hboth := bind (f := fun b => l.mapM f >>= fun bs => pure (b :: bs))
      (h a List.mem_cons_self) (hrest.map (g a :: ·))
    -- a failure of the first element comes before those of the others
    rw [List.findSome?_cons]
    cases hfail : failure a with
    | some name => rw [hfail] at hboth; exact hboth
    | none => rw [hfail] at hboth; exact hboth

/-- If it comes to anything, it comes to `a`. -/
theorem eq_of_run_eq_ok {x : ExceptT AnalysisError Id α} {failure : Option String} {a b : α}
    (hx : Yields entity x failure a) (h : x.run = .ok b) : b = a := by
  unfold Yields at hx
  rw [hx] at h
  cases failure with
  | some name => cases h
  | none => exact (Except.ok.inj h).symm

/-- Where there is an answer, there has been no failure. -/
theorem failure_eq_none_of_run_eq_ok {x : ExceptT AnalysisError Id α} {failure : Option String}
    {a b : α} (hx : Yields entity x failure a) (h : x.run = .ok b) : failure = none := by
  unfold Yields at hx
  rw [hx] at h
  cases failure with
  | some name => cases h
  | none => rfl

/-- Asking for a type fails if it cannot be resolved, and otherwise gives its resolution. -/
theorem question (answers : Answers) (t : TypeRef) :
    Yields entity ((Resolver.ofAnswers answers).resolveFor entity t) (answers.unresolved? t)
      (answers.resolution t) := by
  unfold Yields Answers.unresolved? Answers.resolution
  rw [Resolver.run_resolveFor]
  show (answers t).mapError (AnalysisError.unresolvedType entity) = _
  cases answers t with
  | ok r => rfl
  | error name => rfl

end Yields

/-- The first failure in joined lists is the first one in the first list that has any. -/
theorem findSome?_flatMap {α β γ : Type} (l : List α) (f : α → List β) (g : β → Option γ) :
    (l.flatMap f).findSome? g = l.findSome? fun a => (f a).findSome? g := by
  induction l with
  | nil => rfl
  | cons a l ih =>
    rw [List.flatMap_cons, List.findSome?_append, List.findSome?_cons, ih]
    cases (f a).findSome? g with
    | none => rfl
    | some c => rfl

/-! ## The pieces of classification, given the answers -/

namespace ClassDecl

variable (answers : Answers) (decl : ClassDecl)

/-- The types that have to be resolved for the declaration to be classified, in the order
in which they are asked for: supertypes, fields, and for each constructor and method its
transient references and static calls. What only serves as evidence of ownership is not
among them. -/
def required : List TypeRef :=
  decl.supertypes.map (·.type) ++ decl.fields.map (·.type)
    ++ decl.callables.flatMap fun m =>
      m.transients.map (·.type) ++ m.body.staticCalls.map (·.type)

section

variable {decl}

/-- Supertypes have to be resolved. -/
theorem supertype_mem_required {sup : Supertype} (h : sup ∈ decl.supertypes) :
    sup.type ∈ decl.required :=
  List.mem_append_left _ (List.mem_append_left _ (List.mem_map_of_mem h))

/-- So have the types of fields. -/
theorem field_mem_required {f : FieldDecl} (h : f ∈ decl.fields) : f.type ∈ decl.required :=
  List.mem_append_left _ (List.mem_append_right _ (List.mem_map_of_mem h))

/-- So have the types of parameters and local variables. -/
theorem transient_mem_required {method : MethodDecl} (h : method ∈ decl.callables)
    {b : Binding} (hb : b ∈ method.transients) : b.type ∈ decl.required :=
  List.mem_append_right _ (List.mem_flatMap.mpr
    ⟨method, h, List.mem_append_left _ (List.mem_map_of_mem hb)⟩)

/-- So have the receivers of static calls. -/
theorem staticCall_mem_required {method : MethodDecl} (h : method ∈ decl.callables)
    {c : StaticCall} (hc : c ∈ method.body.staticCalls) : c.type ∈ decl.required :=
  List.mem_append_right _ (List.mem_flatMap.mpr
    ⟨method, h, List.mem_append_right _ (List.mem_map_of_mem hc)⟩)

end

/-- The candidate of a supertype. -/
def supertypeFrom (sup : Supertype) : Option Candidate :=
  match answers.resolution sup.type with
  | .scalar target =>
    if target == decl.name then none
    else some ⟨target, sup.kind.edgeKind decl.kind, none, none⟩
  | _ => none

/-- A field as a stored member. -/
def memberFrom (f : FieldDecl) : StoredMember :=
  ⟨f.name, answers.resolution f.type,
    match answers.resolution f.type with
    | .scalar target => decl.ownershipClue (Resolver.ofAnswers answers) f target
    | _ => .unclear,
    f.nullable.getD false⟩

/-- Every target of every field. -/
def storedFrom : List String :=
  decl.fields.flatMap fun f => (answers.resolution f.type).targets

/-- The type that a static call names, if it is a single one. -/
def receiverFrom (t : TypeRef) : Resolution :=
  match answers.resolution t with
  | .scalar target => .scalar target
  | _ => .foreign

/-- The candidates of a constructor or method. -/
def usagesFrom (method : MethodDecl) : List Candidate :=
  (method.transients.flatMap fun b =>
    (Usage.ofBody method.body b.name).candidates (answers.resolution b.type) b.name)
  ++ method.body.staticCalls.flatMap fun c =>
    Usage.static.candidates (receiverFrom answers c.type) c.method

/-- All candidates of a declaration: of its supertypes, its fields and its uses. -/
def candidatesFrom : List Candidate :=
  decl.supertypes.filterMap (supertypeFrom answers decl)
    ++ decl.fields.flatMap (fun f => (memberFrom answers decl f).candidates)
    ++ (decl.callables.flatMap (usagesFrom answers)).filter fun c =>
      c.target != decl.name && !(storedFrom answers decl).contains c.target

/-- The edges of a declaration. -/
def edgesFrom : List Relationship :=
  (RelationshipSet.ofList
    ((candidatesFrom answers decl).map (Candidate.toRelationship decl.name))).edges

/-- A supertype needs its own type. -/
theorem supertypeCandidate_yields (sup : Supertype) :
    Yields decl.name (decl.supertypeCandidate (Resolver.ofAnswers answers) sup)
      (answers.unresolved? sup.type) (supertypeFrom answers decl sup) := by
  refine (Yields.question answers sup.type).andThen ?_
  unfold supertypeFrom
  cases answers.resolution sup.type with
  | scalar target =>
    dsimp only
    split
    · exact .done _
    · exact .done _
  | foreign | optional _ | list _ | set _ | map _ _ => exact .done _

/-- Supertypes are resolved in their order, and each gives one edge at most. -/
theorem supertypeCandidates_yields :
    Yields decl.name (decl.supertypeCandidates (Resolver.ofAnswers answers))
      ((decl.supertypes.map (·.type)).findSome? answers.unresolved?)
      (decl.supertypes.filterMap (supertypeFrom answers decl)) := by
  have h := (Yields.mapM (l := decl.supertypes)
    fun sup _ => supertypeCandidate_yields answers decl sup).map (List.filterMap id)
  rw [List.filterMap_map] at h
  rw [List.findSome?_map]
  exact h

/-- A field needs its own type; clues to its owner never fail. -/
theorem storedMember_yields (f : FieldDecl) :
    Yields decl.name (decl.storedMember (Resolver.ofAnswers answers) f)
      (answers.unresolved? f.type) (memberFrom answers decl f) := by
  refine (Yields.question answers f.type).andThen ?_
  unfold memberFrom
  cases answers.resolution f.type with
  | scalar target => exact Yields.lift _
  | foreign | optional _ | list _ | set _ | map _ _ => exact .done _

/-- Fields are resolved in their order. -/
theorem fieldCandidates_yields :
    Yields decl.name (decl.fieldCandidates (Resolver.ofAnswers answers))
      ((decl.fields.map (·.type)).findSome? answers.unresolved?)
      (decl.fields.flatMap fun f => (memberFrom answers decl f).candidates) := by
  have h := (Yields.mapM (l := decl.fields)
    fun f _ => storedMember_yields answers decl f).map (List.flatMap StoredMember.candidates)
  rw [List.flatMap_map] at h
  rw [List.findSome?_map]
  exact h

/-- Which targets are stored is known from the types of the fields. -/
theorem storedTargets_yields :
    Yields decl.name (decl.storedTargets (Resolver.ofAnswers answers))
      ((decl.fields.map (·.type)).findSome? answers.unresolved?)
      (storedFrom answers decl) := by
  have hfield : ∀ f ∈ decl.fields, Yields decl.name
      ((Resolver.ofAnswers answers).resolveFor decl.name f.type)
      (answers.unresolved? f.type) (answers.resolution f.type) :=
    fun f _ => Yields.question answers f.type
  have h := (Yields.mapM hfield).map (List.flatMap Resolution.targets)
  rw [List.flatMap_map] at h
  rw [List.findSome?_map]
  exact h

/-- The receiver of a static call has to be resolved. -/
theorem resolveReceiver_yields (t : TypeRef) :
    Yields decl.name (decl.resolveReceiver (Resolver.ofAnswers answers) t)
      (answers.unresolved? t) (receiverFrom answers t) := by
  refine (Yields.question answers t).andThen ?_
  unfold receiverFrom
  cases answers.resolution t with
  | scalar target => exact .done _
  | foreign | optional _ | list _ | set _ | map _ _ => exact .done _

/-- A method needs the types that it only uses and then its receivers. -/
theorem methodUsages_yields (method : MethodDecl) :
    Yields decl.name (decl.methodUsages (Resolver.ofAnswers answers) method)
      ((method.transients.map (·.type) ++ method.body.staticCalls.map (·.type)).findSome?
        answers.unresolved?)
      (usagesFrom answers method) := by
  rw [List.findSome?_append, List.findSome?_map, List.findSome?_map]
  refine Yields.bind (Yields.mapM fun b _ => (Yields.question answers b.type).map fun r =>
    (Usage.ofBody method.body b.name).candidates r b.name) ?_
  refine Yields.andThen (Yields.mapM fun c _ =>
    (resolveReceiver_yields answers decl c.type).map fun r => Usage.static.candidates r c.method) ?_
  unfold usagesFrom
  rw [List.flatMap_def, List.flatMap_def]
  exact .done _

/-- Usages need the fields once more, to leave out what is stored, and then all methods. -/
theorem usageCandidates_yields :
    Yields decl.name (decl.usageCandidates (Resolver.ofAnswers answers))
      (((decl.fields.map (·.type)).findSome? answers.unresolved?).or
        ((decl.callables.flatMap fun m =>
          m.transients.map (·.type) ++ m.body.staticCalls.map (·.type)).findSome?
            answers.unresolved?))
      ((decl.callables.flatMap (usagesFrom answers)).filter fun c =>
        c.target != decl.name && !(storedFrom answers decl).contains c.target) := by
  rw [findSome?_flatMap]
  refine (storedTargets_yields answers decl).bind ?_
  refine Yields.andThen (Yields.mapM fun m _ => methodUsages_yields answers decl m) ?_
  rw [List.flatMap_def]
  exact .done _

/-- **What classification computes** from the answers: the first required type that cannot
be resolved fails it, and otherwise it gives the edges of the declaration. -/
theorem relationships_yields :
    Yields decl.name (decl.relationships (Resolver.ofAnswers answers))
      (decl.required.findSome? answers.unresolved?) (edgesFrom answers decl) := by
  unfold required
  rw [List.findSome?_append, List.findSome?_append]
  -- the fields are resolved twice, but the first time settles whether they can be
  have hfields : ∀ a b c : Option String, (a.or b).or c = a.or (b.or (b.or c)) := by
    intro a b c
    cases a <;> cases b <;> rfl
  rw [hfields]
  refine (supertypeCandidates_yields answers decl).bind ?_
  refine (fieldCandidates_yields answers decl).bind ?_
  refine (usageCandidates_yields answers decl).andThen ?_
  exact .done _

/-- What becomes of a declaration, given the answers. -/
def outcomeFrom : Except AnalysisError (List Relationship) :=
  match decl.required.findSome? answers.unresolved? with
  | some name => .error (.unresolvedType decl.name name)
  | none => .ok (edgesFrom answers decl)

/-- Nothing fails if every required type has an answer. -/
theorem unresolved?_required_eq_none_iff :
    decl.required.findSome? answers.unresolved? = none
      ↔ ∀ t ∈ decl.required, ∃ r, answers t = .ok r := by
  rw [List.findSome?_eq_none_iff]
  refine forall_congr' fun t => imp_congr_right fun _ => ?_
  unfold Answers.unresolved?
  cases answers t with
  | ok r => simp
  | error name => simp

/-- Then the outcome is the edges. -/
theorem outcomeFrom_of_resolved (h : ∀ t ∈ decl.required, ∃ r, answers t = .ok r) :
    outcomeFrom answers decl = .ok (edgesFrom answers decl) := by
  rw [outcomeFrom, (unresolved?_required_eq_none_iff answers decl).mpr h]

/-- Only the answers for the types of the declaration count. -/
theorem outcomeFrom_congr {answers answers' : Answers}
    (h : ∀ t ∈ decl.types, answers t = answers' t) :
    outcomeFrom answers decl = outcomeFrom answers' decl := by
  have hcongr := (relationships_consults ⟨.empty, {}⟩ decl).congr h
  exact (relationships_yields answers decl).symm.trans
    (hcongr.trans (relationships_yields answers' decl))

/-- The remembering resolver makes of a declaration, from any memo, what its answers at any
later time make of it. -/
theorem relationships_run_of_extends (s : Scope) {m later : Memo}
    (h : ((decl.relationships (Resolver.remembering s)).run m).2.Extends later) :
    ((decl.relationships (Resolver.remembering s)).run m).1
      = outcomeFrom (s.answers later) decl := by
  have hrun := (relationships_consults s decl).run_eq_of_extends h
  exact hrun.trans (relationships_yields _ decl)

/-- Classification with a memo has the outcome that the answers in it at the end would give. -/
theorem relationships_run (s : Scope) (m : Memo) :
    ((decl.relationships (Resolver.remembering s)).run m).1
      = outcomeFrom (s.answers ((decl.relationships (Resolver.remembering s)).run m).2) decl :=
  relationships_run_of_extends decl s (Memo.Extends.refl _)

/-- A run that succeeds has resolved all that is required, and has found the edges that its
answers come to. -/
theorem of_relationships_run {decl : ClassDecl} {s : Scope} {m m' : Memo}
    {rs : List Relationship}
    (h : (decl.relationships (Resolver.remembering s)).run m = (.ok rs, m')) :
    (∀ t ∈ decl.required, ∃ r, s.answers m' t = .ok r)
      ∧ rs = edgesFrom (s.answers m') decl := by
  have hend := (relationships_consults s decl).run_eq_ok h
  have hyields := relationships_yields (s.answers m') decl
  exact ⟨(unresolved?_required_eq_none_iff _ decl).mp
    (hyields.failure_eq_none_of_run_eq_ok hend), hyields.eq_of_run_eq_ok hend⟩

/-- From a faithful memo it makes of it what the plain answers make of it. -/
theorem relationships_transparent {s : Scope} (stock : Stock s)
    (h : ∀ t ∈ decl.types, stock.Holds t) :
    stock.Transparent (decl.relationships (Resolver.remembering s)).run
      (outcomeFrom s.resolve decl) := by
  have htree := (relationships_consults s decl).transparent stock h
  rwa [show (decl.relationships (Resolver.ofAnswers s.resolve)).run = _ from
    relationships_yields s.resolve decl] at htree

/-- A declaration without ambiguous names, all of whose required types resolve, is
classified from an empty memo by the plain answers, and the resolver keeps to them. -/
theorem relationships_of_resolved (s : Scope) (htypes : ∀ t ∈ decl.types, t.Unambiguous)
    (hrequired : decl.required.findSome? (Answers.unresolved? s.resolve) = none) :
    ∃ m, (decl.relationships (Resolver.remembering s)).run .empty
        = (.ok (edgesFrom s.resolve decl), m)
      ∧ ∀ t : TypeRef, t.Unambiguous → s.answers m t = s.resolve t := by
  -- an empty memo is faithful, and so is the one that the run leaves
  have hplain := relationships_transparent decl (Stock.unambiguous s) htypes
  obtain ⟨hval, hfaithful⟩ := hplain .empty (Stock.faithful_empty _)
  rw [outcomeFrom, hrequired] at hval
  refine ⟨_, Prod.ext hval rfl, fun t ht => ?_⟩
  exact (s.recallType_transparent (Stock.unambiguous s) t ht _ hfaithful).1

/-- An outcome that is about the declaration: edges that all start there, one for each
key, or a failure that is reported against it. -/
def IsOwn (decl : ClassDecl) : Except AnalysisError (List Relationship) → Prop
  | .ok rs => (rs.map Relationship.key).Nodup ∧ ∀ r ∈ rs, r.source = decl.name
  | .error e => ∃ name, e = .unresolvedType decl.name name

/-- All edges of a declaration start at it. -/
theorem source_of_mem_edgesFrom {answers : Answers} {decl : ClassDecl} {r : Relationship}
    (h : r ∈ edgesFrom answers decl) : r.source = decl.name := by
  rw [edgesFrom, RelationshipSet.ofList_edges] at h
  obtain ⟨c, -, rfl⟩ := List.mem_map.mp (mem_of_mem_firstsAfter h)
  rfl

/-- A failure names the declaration, too. -/
theorem outcomeFrom_isOwn : decl.IsOwn (outcomeFrom answers decl) := by
  unfold outcomeFrom
  split
  next name _ => exact ⟨name, rfl⟩
  next =>
    refine ⟨?_, fun r hr => source_of_mem_edgesFrom hr⟩
    rw [edgesFrom, RelationshipSet.ofList_edges]
    exact nodup_firstsAfter _ _

end ClassDecl

end ClassDiagram
