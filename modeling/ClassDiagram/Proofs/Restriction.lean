import ClassDiagram.Proofs.References
import Mathlib.Data.List.Basic

/-!
# Restriction to some targets

What is left of a classification when only some targets count. A resolution is restricted
by leaving out the other targets (`Resolution.restrict`), and what then has no target is
foreign. Restriction commutes with every container, so it can be done at the names of a
type or at the end.

It commutes with classification, too. Let one table of answers be the restriction of
another, on the types that a declaration requires, and let the two agree on which types
construct a target that counts (`Answers.Restricts`). Then the edges for the first are the
edges for the second, less those to other targets, in the same order and with the same
kinds, multiplicities and labels (`edgesFrom_of_restricts`). Three things have to be seen
for this: the clue for a field is about its target only, the multiplicity of a use is the
same as long as a target is left, and what is stored is restricted like everything else.
-/

namespace ClassDiagram

/-! ## Resolutions -/

namespace Resolution

/-- What is left of a resolution when only the targets with `p` count. -/
def restrict (p : String → Bool) : Resolution → Resolution
  | .foreign => .foreign
  | .scalar t => if p t then .scalar t else .foreign
  | .optional t => if p t then .optional t else .foreign
  | .list t => if p t then .list t else .foreign
  | .set t => if p t then .set t else .foreign
  | .map key value => .ofSides (key.filter p) (value.filter p)

/-- Two sides make a pair unless both are empty. -/
theorem ofSides_cases (key value : List String) :
    (key = [] ∧ value = [] ∧ ofSides key value = .foreign)
      ∨ ofSides key value = .map key value := by
  cases key with
  | cons t rest => exact .inr rfl
  | nil =>
    cases value with
    | cons t rest => exact .inr rfl
    | nil => exact .inl ⟨rfl, rfl, rfl⟩

/-- Two sides leave nothing exactly if there is no target on either. -/
theorem ofSides_eq_foreign_iff {key value : List String} :
    ofSides key value = .foreign ↔ key ++ value = [] := by
  cases key with
  | cons t rest => exact ⟨nofun, nofun⟩
  | nil =>
    cases value with
    | cons t rest => exact ⟨nofun, nofun⟩
    | nil => exact ⟨fun _ => rfl, fun _ => rfl⟩

/-- The targets of a pair are those of its sides. -/
theorem targets_ofSides (key value : List String) :
    (ofSides key value).targets = key ++ value := by
  rcases ofSides_cases key value with ⟨rfl, rfl, h⟩ | h
  · rfl
  · rw [h, targets]

variable (p : String → Bool)

/-- A pair is restricted side by side. -/
theorem restrict_ofSides (key value : List String) :
    (ofSides key value).restrict p = ofSides (key.filter p) (value.filter p) := by
  rcases ofSides_cases key value with ⟨rfl, rfl, h⟩ | h
  · rfl
  · rw [h, restrict]

/-- The targets of a restricted answer are the targets that are left. -/
theorem targets_restrict (r : Resolution) : (r.restrict p).targets = r.targets.filter p := by
  cases r with
  | foreign => rfl
  | map key value => rw [restrict, targets_ofSides, targets, List.filter_append]
  | scalar t | optional t | list t | set t =>
    rw [restrict]
    cases hp : p t with
    | true => simp [targets, hp]
    | false => simp [targets, hp]

/-- A target in a wrapper is left with its wrapper or not at all. -/
theorem restrict_around (w : Wrapper) (t : String) :
    (w.around t).restrict p = if p t then w.around t else .foreign := by
  cases w with
  | list => rfl
  | set => rfl
  | optional => rfl

/-- A container can be restricted inside or outside. -/
theorem restrict_apply (w : Wrapper) (transparent : Bool) (r : Resolution) :
    (w.apply transparent r).restrict p = w.apply transparent (r.restrict p) := by
  cases r with
  | foreign => rfl
  | map key value =>
    show ofSides (key.filter p) (value.filter p)
      = w.apply transparent (ofSides (key.filter p) (value.filter p))
    -- a map shows through, and so does what is left of it
    rcases ofSides_cases (key.filter p) (value.filter p) with ⟨-, -, h⟩ | h
    · rw [h, Wrapper.apply]
    · rw [h, Wrapper.apply]
  | scalar t | optional t =>
    rw [Wrapper.apply, restrict, restrict_around]
    split <;> rfl
  | list t | set t =>
    rw [Wrapper.apply, restrict]
    cases transparent with
    | true =>
      rw [if_pos rfl, restrict]
      split <;> rfl
    | false =>
      rw [if_neg Bool.false_ne_true, restrict_around]
      split <;> rfl

/-- Restriction keeps the shape, unless no target is left. -/
theorem isCollection_restrict (r : Resolution) :
    r.restrict p = .foreign ∨ (r.restrict p).isCollection = r.isCollection := by
  cases r with
  | foreign => exact .inl rfl
  | map key value =>
    rw [restrict]
    rcases ofSides_cases (key.filter p) (value.filter p) with ⟨-, -, h⟩ | h
    · exact .inl h
    · exact .inr (by rw [h]; rfl)
  | scalar t | optional t | list t | set t =>
    rw [restrict]
    cases p t with
    | true => exact .inr rfl
    | false => exact .inl rfl

/-- The target of a resolution that is neither foreign nor a container. -/
def single? : Resolution → Option String
  | .scalar t => some t
  | _ => none

/-- A single target is left if it is one of the names. -/
theorem single?_restrict (r : Resolution) : (r.restrict p).single? = r.single?.filter p := by
  cases r with
  | foreign => rfl
  | map key value =>
    rw [restrict]
    rcases ofSides_cases (key.filter p) (value.filter p) with ⟨-, -, h⟩ | h
    · rw [h]; rfl
    · rw [h]; rfl
  | scalar t =>
    rw [restrict, single?, Option.filter_some]
    split <;> rfl
  | optional t | list t | set t =>
    rw [restrict]
    split <;> rfl

end Resolution

/-! ## Candidates -/

/-- A field that holds several things has an aggregation for each of them. -/
theorem StoredMember.candidates_of_isCollection {member : StoredMember}
    (h : member.resolution = .foreign ∨ member.resolution.isCollection = true) :
    member.candidates = member.resolution.targets.map fun target =>
      ⟨target, .aggregation, some .many, some member.name⟩ := by
  unfold candidates
  cases hres : member.resolution with
  | foreign | list t | set t | map key value => rfl
  | scalar t | optional t => simp [hres, Resolution.isCollection] at h

section

variable (p : String → Bool)

/-- To restrict the edges is to restrict their targets. -/
theorem filter_map_candidate {g : String → Candidate} (hg : ∀ target, (g target).target = target)
    (targets : List String) :
    (targets.map g).filter (fun c => p c.target) = (targets.filter p).map g := by
  rw [List.filter_map]
  refine congrArg _ (List.filter_congr fun target _ => ?_)
  exact congrArg p (hg target)

/-- A use of what is left has the candidates that are left. -/
theorem Usage.candidates_restrict (u : Usage) (r : Resolution) (label : String) :
    u.candidates (r.restrict p) label
      = (u.candidates r label).filter fun c => p c.target := by
  unfold candidates
  rw [filter_map_candidate p (by cases u <;> exact fun _ => rfl), Resolution.targets_restrict]
  rcases Resolution.isCollection_restrict p r with hforeign | hshape
  · have hnone : r.targets.filter p = [] := by
      rw [← Resolution.targets_restrict, hforeign]
      rfl
    rw [hnone]
    rfl
  · rw [hshape]

/-- A member of which only some targets count has the candidates that are left, provided
that its clue is the same in case it has a single target and that counts. -/
theorem StoredMember.candidates_restrict (member : StoredMember) (clue : OwnershipClue)
    (hclue : ∀ t, member.resolution = .scalar t → p t = true → clue = member.clue) :
    StoredMember.candidates
        ⟨member.name, member.resolution.restrict p, clue, member.nullable⟩
      = member.candidates.filter fun c => p c.target := by
  -- collections first: what is left of one is a collection or has no target at all
  by_cases hcollection : member.resolution.isCollection = true
  · have hrestrict := Resolution.isCollection_restrict p member.resolution
    rw [hcollection] at hrestrict
    rw [candidates_of_isCollection hrestrict, candidates_of_isCollection (.inr hcollection),
      filter_map_candidate p fun _ => rfl, Resolution.targets_restrict]
  · unfold candidates
    cases hres : member.resolution with
    | foreign => rfl
    | scalar t =>
      rw [Resolution.restrict]
      cases hp : p t with
      | true => simp [hp, hclue t hres hp]
      | false => simp [hp]
    | optional t =>
      rw [Resolution.restrict]
      cases hp : p t with
      | true => simp [hp]
      | false => simp [hp]
    | list t | set t | map key value => rw [hres] at hcollection; exact absurd rfl hcollection

end

/-! ## Edges -/

/-- The answers `a` are those of `a'` as far as targets with `p` go: on the given types one
is the restriction of the other, and on all types they agree about which of them stand for
a single target with `p`. -/
structure Answers.Restricts (p : String → Bool) (types : List TypeRef) (a a' : Answers) :
    Prop where
  resolution : ∀ t ∈ types, a.resolution t = (a'.resolution t).restrict p
  scalar : ∀ (t : TypeRef) (target : String), p target = true →
    (a t = .ok (.scalar target) ↔ a' t = .ok (.scalar target))

namespace ClassDecl

variable {p : String → Bool} {a a' : Answers} {decl : ClassDecl}

/-- The clue for a target depends on which types stand for that target. -/
theorem ownershipClue_congr {target : String}
    (h : ∀ t, a t = .ok (.scalar target) ↔ a' t = .ok (.scalar target)) (f : FieldDecl) :
    decl.ownershipClue (Resolver.ofAnswers a) f target
      = decl.ownershipClue (Resolver.ofAnswers a') f target := by
  have hconstructs : constructs (Resolver.ofAnswers a) target
      = constructs (Resolver.ofAnswers a') target := by
    funext t
    exact Bool.eq_iff_iff.mpr ((constructs_iff a).trans ((h t).trans (constructs_iff a').symm))
  have hinitializer : initializerBuilds (Resolver.ofAnswers a) target
      = initializerBuilds (Resolver.ofAnswers a') target := by
    funext init
    cases init with
    | construct t => exact congrFun hconstructs t
    | absent => rfl
    | other => rfl
  have hconstructor : constructorBuilds (Resolver.ofAnswers a) f.name target
      = constructorBuilds (Resolver.ofAnswers a') f.name target := by
    unfold constructorBuilds assignsFresh
    rw [hconstructs]
  unfold ownershipClue
  rw [hinitializer, hconstructor]

/-- A supertype with a single target gives an edge to it, unless it leads back. -/
theorem supertypeFrom_eq (a : Answers) (sup : Supertype) :
    supertypeFrom a decl sup = (a.resolution sup.type).single?.bind fun target =>
      if target == decl.name then none
      else some ⟨target, sup.kind.edgeKind decl.kind, none, none⟩ := by
  unfold supertypeFrom
  cases a.resolution sup.type with
  | scalar t => rfl
  | foreign | optional _ | list _ | set _ | map _ _ => rfl

/-- The edge to a supertype is left if its target is. -/
theorem supertypeFrom_restrict {sup : Supertype}
    (h : a.resolution sup.type = (a'.resolution sup.type).restrict p) :
    supertypeFrom a decl sup = (supertypeFrom a' decl sup).filter fun c => p c.target := by
  rw [supertypeFrom_eq, supertypeFrom_eq, h, Resolution.single?_restrict]
  cases (a'.resolution sup.type).single? with
  | none => rfl
  | some t =>
    rw [Option.filter_some, Option.bind_some]
    by_cases hself : t == decl.name
    · rw [if_pos hself]
      cases p t with
      | true => exact if_pos hself
      | false => rfl
    · rw [if_neg hself, Option.filter_some]
      cases p t with
      | true => exact if_neg hself
      | false => rfl

/-- The edges of a field are left if their targets are, of the same kind as before. -/
theorem memberFrom_restrict {f : FieldDecl}
    (hres : a.resolution f.type = (a'.resolution f.type).restrict p)
    (hscalar : ∀ (t : TypeRef) (target : String), p target = true →
      (a t = .ok (.scalar target) ↔ a' t = .ok (.scalar target))) :
    (memberFrom a decl f).candidates
      = (memberFrom a' decl f).candidates.filter fun c => p c.target := by
  rw [← StoredMember.candidates_restrict p (memberFrom a' decl f) (memberFrom a decl f).clue]
  · exact congrArg (fun r => StoredMember.candidates ⟨f.name, r, _, _⟩) hres
  · intro t ht hp
    have ht' : a.resolution f.type = .scalar t := by
      rw [hres, show a'.resolution f.type = .scalar t from ht, Resolution.restrict, if_pos hp]
    rw [memberFrom_clue ht', memberFrom_clue ht]
    exact ownershipClue_congr (fun u => hscalar u t hp) f

/-- The receiver of a static call is a single target or nothing. -/
theorem receiverFrom_eq (a : Answers) (t : TypeRef) :
    receiverFrom a t = match (a.resolution t).single? with
      | some target => .scalar target
      | none => .foreign := by
  unfold receiverFrom
  cases a.resolution t with
  | scalar target => rfl
  | foreign | optional _ | list _ | set _ | map _ _ => rfl

/-- A receiver is left if it is one of the names. -/
theorem receiverFrom_restrict {t : TypeRef}
    (h : a.resolution t = (a'.resolution t).restrict p) :
    receiverFrom a t = (receiverFrom a' t).restrict p := by
  rw [receiverFrom_eq, receiverFrom_eq, h, Resolution.single?_restrict]
  cases (a'.resolution t).single? with
  | none => rfl
  | some target =>
    rw [Option.filter_some, Resolution.restrict]
    cases p target with
    | true => rfl
    | false => rfl

/-- Of the usages in a method, those to the names are left. -/
theorem usagesFrom_restrict (h : a.Restricts p decl.required a') {method : MethodDecl}
    (hmethod : method ∈ decl.callables) :
    usagesFrom a method = (usagesFrom a' method).filter fun c => p c.target := by
  unfold usagesFrom
  rw [List.filter_append, List.filter_flatMap, List.filter_flatMap]
  congr 1
  · refine List.flatMap_congr fun b hb => ?_
    rw [h.resolution _ (transient_mem_required hmethod hb), Usage.candidates_restrict]
  · refine List.flatMap_congr fun c hc => ?_
    rw [receiverFrom_restrict (h.resolution _ (staticCall_mem_required hmethod hc)),
      Usage.candidates_restrict]

/-- Whether one of the names is stored does not change. -/
theorem mem_storedFrom_restrict (h : a.Restricts p decl.required a') {target : String}
    (hp : p target = true) :
    target ∈ storedFrom a decl ↔ target ∈ storedFrom a' decl := by
  unfold storedFrom
  rw [List.mem_flatMap, List.mem_flatMap]
  refine exists_congr fun f => and_congr_right fun hf => ?_
  rw [h.resolution _ (field_mem_required hf), Resolution.targets_restrict, List.mem_filter]
  exact and_iff_left hp

/-- The same for the usages in all methods. -/
theorem callables_usagesFrom_restrict (h : a.Restricts p decl.required a') :
    decl.callables.flatMap (usagesFrom a)
      = (decl.callables.flatMap (usagesFrom a')).filter fun c => p c.target := by
  rw [List.filter_flatMap]
  exact List.flatMap_congr fun method hmethod => usagesFrom_restrict h hmethod

/-- Restricted answers give the edges to the names, and no others. -/
theorem candidatesFrom_of_restricts (h : a.Restricts p decl.required a') :
    candidatesFrom a decl = (candidatesFrom a' decl).filter fun c => p c.target := by
  unfold candidatesFrom
  rw [List.filter_append, List.filter_append, callables_usagesFrom_restrict h]
  congr 1
  · congr 1
    · rw [List.filter_filterMap]
      refine List.filterMap_congr fun sup hsup => ?_
      exact supertypeFrom_restrict (h.resolution _ (supertype_mem_required hsup))
    · rw [List.filter_flatMap]
      refine List.flatMap_congr fun f hf => ?_
      exact memberFrom_restrict (h.resolution _ (field_mem_required hf)) h.scalar
  · -- uses are left out for what is stored, and of that the targets with `p` are the same
    rw [List.filter_filter, List.filter_filter]
    refine List.filter_congr fun c _ => ?_
    cases hp : p c.target with
    | false => simp
    | true =>
      have hstored := mem_storedFrom_restrict h hp
      simp [hstored]

/-- **Restriction commutes with classification.** -/
theorem edgesFrom_of_restricts (h : a.Restricts p decl.required a') :
    edgesFrom a decl = (edgesFrom a' decl).filter fun r => p r.target := by
  rw [edgesFrom, edgesFrom, RelationshipSet.ofList_edges, RelationshipSet.ofList_edges,
    candidatesFrom_of_restricts h]
  -- the target is part of the key, so the set drops the same edges on both sides
  have hfilter := firstsAfter_filter Relationship.key (fun key => p key.target) []
    ((candidatesFrom a' decl).map (Candidate.toRelationship decl.name))
  rw [List.filter_map] at hfilter
  exact hfilter

end ClassDecl

end ClassDiagram
