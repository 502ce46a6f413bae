import ClassDiagram.Proofs.Classification

/-!
# Ownership is inferred on evidence only

When a declaration gets a composition or an aggregation, and when not. The evidence for a
composition is spread over the initializer of the field, every constructor that does its
own work and every assignment from a parameter; `IsInjected` and `IsBuilt` put it into
words, and `ownershipClue_eq_constructedInline` shows that the clue is found exactly on
this evidence. An aggregation needs nothing but a collection.

The candidates then share a set with those of supertypes and uses, where the first one
for a key stands. Neither of these two groups has a candidate of an ownership kind, and
two edges of such a kind that share a key are equal, so the set hides none of them
(`mem_edgesFrom_iff`).
-/

namespace ClassDiagram

/-- A constructor or method assigns one of its own parameters to the field. -/
def ClassDecl.IsInjected (decl : ClassDecl) (field : String) : Prop :=
  ∃ method ∈ decl.callables, ∃ a ∈ method.body.fieldAssignments,
    a.field = field ∧ ∃ p ∈ method.params, a.source = .parameter p.name

/-- The declaration itself makes the field an instance of `target`: its initializer does,
or there are constructors that do not call another one, and each of these has an
assignment that does. -/
def ClassDecl.IsBuilt (answers : Answers) (decl : ClassDecl) (f : FieldDecl)
    (target : String) : Prop :=
  (∃ t, f.initializer = .construct t ∧ answers t = .ok (.scalar target))
  ∨ ((∃ c ∈ decl.constructors, c.body.delegatesToThis = false)
    ∧ ∀ c ∈ decl.constructors, c.body.delegatesToThis = false →
      ∃ a ∈ c.body.fieldAssignments, a.field = f.name
        ∧ ∃ t, a.source = .construct t ∧ answers t = .ok (.scalar target))

/-! ## The clue -/

theorem MethodDecl.injects_iff {method : MethodDecl} {field : String} :
    method.injects field = true ↔ ∃ a ∈ method.body.fieldAssignments,
      a.field = field ∧ ∃ p ∈ method.params, a.source = .parameter p.name := by
  unfold injects hasParam
  rw [List.any_eq_true]
  refine exists_congr fun a => and_congr_right fun _ => ?_
  rw [Bool.and_eq_true, beq_iff_eq]
  refine and_congr_right fun _ => ?_
  cases a.source with
  | parameter q =>
    rw [List.any_eq_true]
    refine exists_congr fun p => and_congr_right fun _ => ?_
    rw [beq_iff_eq, AssignSource.parameter.injEq, eq_comm]
  | construct t => simp
  | other => simp

namespace ClassDecl

variable (answers : Answers) (decl : ClassDecl)

/-- The search for an injecting constructor or method decides whether the field is injected. -/
theorem isInjected_iff {field : String} :
    decl.callables.any (·.injects field) = true ↔ decl.IsInjected field := by
  rw [List.any_eq_true]
  exact exists_congr fun method => and_congr_right fun _ => MethodDecl.injects_iff

/-- A type counts as built for a target when it resolves to this target alone. -/
theorem constructs_iff {target : String} {t : TypeRef} :
    constructs (Resolver.ofAnswers answers) target t = true
      ↔ answers t = .ok (.scalar target) := by
  unfold constructs Resolver.ofAnswers
  rw [pure_bind]
  cases answers t with
  | error name => simp
  | ok r =>
    cases r with
    | scalar u =>
      show (u == target) = true ↔ _
      rw [beq_iff_eq, Except.ok.injEq, Resolution.scalar.injEq]
    | foreign | optional _ | list _ | set _ | map _ _ => simp

theorem initializerBuilds_iff {target : String} {init : Initializer} :
    initializerBuilds (Resolver.ofAnswers answers) target init = true
      ↔ ∃ t, init = .construct t ∧ answers t = .ok (.scalar target) := by
  cases init with
  | construct u =>
    show constructs (Resolver.ofAnswers answers) target u = true ↔ _
    rw [constructs_iff]
    constructor
    · intro h
      exact ⟨u, rfl, h⟩
    · rintro ⟨t, ht, h⟩
      rw [Initializer.construct.inj ht]
      exact h
  | absent =>
    constructor
    · intro h; cases h
    · rintro ⟨t, ht, -⟩; cases ht
  | other =>
    constructor
    · intro h; cases h
    · rintro ⟨t, ht, -⟩; cases ht

theorem assignsFresh_iff {field target : String} {a : FieldAssignment} :
    assignsFresh (Resolver.ofAnswers answers) field target a = true
      ↔ a.field = field ∧ ∃ t, a.source = .construct t ∧ answers t = .ok (.scalar target) := by
  unfold assignsFresh
  by_cases hfield : a.field = field
  · rw [if_pos (beq_iff_eq.mpr hfield)]
    cases a.source with
    | construct u =>
      show constructs (Resolver.ofAnswers answers) target u = true ↔ _
      rw [constructs_iff]
      constructor
      · intro h
        exact ⟨hfield, u, rfl, h⟩
      · rintro ⟨-, t, ht, h⟩
        rw [AssignSource.construct.inj ht]
        exact h
    | parameter p =>
      constructor
      · intro h; cases h
      · rintro ⟨-, t, ht, -⟩; cases ht
    | other =>
      constructor
      · intro h; cases h
      · rintro ⟨-, t, ht, -⟩; cases ht
  · rw [if_neg (fun h => hfield (beq_iff_eq.mp h))]
    constructor
    · intro h; cases h
    · rintro ⟨h, -⟩; exact absurd h hfield

theorem constructorBuilds_iff {field target : String} {c : MethodDecl} :
    constructorBuilds (Resolver.ofAnswers answers) field target c = true
      ↔ ∃ a ∈ c.body.fieldAssignments, a.field = field
        ∧ ∃ t, a.source = .construct t ∧ answers t = .ok (.scalar target) := by
  have hany : constructorBuilds (Resolver.ofAnswers answers) field target c
      = c.body.fieldAssignments.any (assignsFresh (Resolver.ofAnswers answers) field target) :=
    List.anyM_pure (m := Id)
  rw [hany, List.any_eq_true]
  exact exists_congr fun a => and_congr_right fun _ => assignsFresh_iff answers

/-- Every constructor that does its own work builds the field. -/
theorem allM_constructorBuilds_iff {field target : String} :
    decl.ownConstructors.allM (m := Id)
        (constructorBuilds (Resolver.ofAnswers answers) field target) = true
      ↔ ∀ c ∈ decl.constructors, c.body.delegatesToThis = false →
        ∃ a ∈ c.body.fieldAssignments, a.field = field
          ∧ ∃ t, a.source = .construct t ∧ answers t = .ok (.scalar target) := by
  have hall : decl.ownConstructors.allM (m := Id)
        (constructorBuilds (Resolver.ofAnswers answers) field target)
      = decl.ownConstructors.all (constructorBuilds (Resolver.ofAnswers answers) field target) :=
    List.allM_pure (m := Id)
  rw [hall, List.all_eq_true]
  unfold ownConstructors
  constructor
  · intro h c hc hown
    refine (constructorBuilds_iff answers).mp (h c (List.mem_filter.mpr ⟨hc, ?_⟩))
    rw [hown]
    rfl
  · intro h c hc
    obtain ⟨hmem, hown⟩ := List.mem_filter.mp hc
    refine (constructorBuilds_iff answers).mpr (h c hmem ?_)
    rw [Bool.not_eq_true'] at hown
    exact hown

theorem isEmpty_ownConstructors :
    decl.ownConstructors.isEmpty = false
      ↔ ∃ c ∈ decl.constructors, c.body.delegatesToThis = false := by
  rw [List.isEmpty_eq_false_iff_exists_mem]
  unfold ownConstructors
  refine exists_congr fun c => ?_
  rw [List.mem_filter, Bool.not_eq_true']

/-- **The clue is found exactly on the evidence.** -/
theorem ownershipClue_eq_constructedInline {f : FieldDecl} {target : String} :
    decl.ownershipClue (Resolver.ofAnswers answers) f target = OwnershipClue.constructedInline
      ↔ ¬decl.IsInjected f.name ∧ decl.IsBuilt answers f target := by
  unfold ownershipClue IsBuilt
  rw [← isInjected_iff, ← initializerBuilds_iff, ← isEmpty_ownConstructors,
    ← allM_constructorBuilds_iff]
  -- four yes-or-no findings decide; they are taken in the order in which they are looked at
  cases decl.callables.any (·.injects f.name) with
  | true => simp [pure]
  | false =>
    cases initializerBuilds (Resolver.ofAnswers answers) target f.initializer with
    | true => simp [pure, bind]
    | false =>
      cases decl.ownConstructors.isEmpty with
      | true => simp [pure, bind]
      | false =>
        cases decl.ownConstructors.allM (m := Id)
            (constructorBuilds (Resolver.ofAnswers answers) f.name target) with
        | true => simp [pure, bind]
        | false => simp [pure, bind]

end ClassDecl

/-! ## Candidates of an ownership kind -/

/-- A relationship without its source. -/
def Relationship.toCandidate (r : Relationship) : Candidate :=
  ⟨r.target, r.kind, r.multiplicity, r.label⟩

theorem SupertypeKind.isOwnership_edgeKind (k : SupertypeKind) (d : DeclKind) :
    (k.edgeKind d).isOwnership = false := by
  cases k <;> cases d <;> rfl

theorem Usage.isOwnership_of_mem_candidates {u : Usage} {r : Resolution} {label : String}
    {c : Candidate} (h : c ∈ u.candidates r label) : c.kind.isOwnership = false := by
  obtain ⟨target, -, rfl⟩ := List.mem_map.mp h
  cases u with
  | memberAccess => rfl
  | passThrough => rfl
  | static => rfl

namespace StoredMember

/-- A member is composed if it has a single target that the owner makes itself. -/
theorem mem_candidates_of_composition {member : StoredMember} {c : Candidate}
    (hkind : c.kind = .composition) :
    c ∈ member.candidates ↔ member.resolution = .scalar c.target
      ∧ member.clue = .constructedInline ∧ c.multiplicity = some .one
      ∧ c.label = some member.name := by
  obtain ⟨target, kind, multiplicity, label⟩ := c
  subst hkind
  unfold candidates
  cases member.resolution with
  | foreign => simp
  | scalar t =>
    cases member.clue with
    | constructedInline => simp [scalarEdge, eq_comm]
    | injected => simp [scalarEdge]
    | unclear => simp [scalarEdge]
  | optional t => simp
  | list t => simp
  | set t => simp
  | map key value => simp

/-- A member is aggregated if it is a collection, once for each of its targets. -/
theorem mem_candidates_of_aggregation {member : StoredMember} {c : Candidate}
    (hkind : c.kind = .aggregation) :
    c ∈ member.candidates ↔ member.resolution.isCollection = true
      ∧ c.target ∈ member.resolution.targets ∧ c.multiplicity = some .many
      ∧ c.label = some member.name := by
  obtain ⟨target, kind, multiplicity, label⟩ := c
  subst hkind
  unfold candidates
  cases member.resolution with
  | foreign => simp [Resolution.isCollection]
  | scalar t =>
    cases member.clue with
    | constructedInline => simp [scalarEdge, Resolution.isCollection]
    | injected => simp [scalarEdge, Resolution.isCollection]
    | unclear => simp [scalarEdge, Resolution.isCollection]
  | optional t => simp [Resolution.isCollection]
  | list t => simp [Resolution.isCollection, Resolution.targets]
  | set t => simp [Resolution.isCollection, Resolution.targets]
  | map key value =>
    simp only [Resolution.isCollection, Resolution.targets, List.mem_map, Candidate.mk.injEq,
      true_and]
    constructor
    · rintro ⟨t, ht, rfl, rfl, rfl⟩
      exact ⟨ht, rfl, rfl⟩
    · rintro ⟨ht, rfl, rfl⟩
      exact ⟨target, ht, rfl, rfl, rfl⟩

end StoredMember

theorem Answers.resolution_eq_iff {answers : Answers} {t : TypeRef} {r : Resolution}
    (h : r ≠ .foreign) : answers.resolution t = r ↔ answers t = .ok r := by
  unfold resolution
  cases answers t with
  | ok r' => simp
  | error name => simp [eq_comm, h]

namespace ClassDecl

variable {answers : Answers} {decl : ClassDecl}

/-- A supertype never gives an ownership edge. -/
theorem isOwnership_of_supertypeFrom {sup : Supertype} {c : Candidate}
    (h : supertypeFrom answers decl sup = some c) : c.kind.isOwnership = false := by
  unfold supertypeFrom at h
  split at h
  · split at h
    · cases h
    · cases h
      exact sup.kind.isOwnership_edgeKind decl.kind
  · cases h

/-- A use never gives an ownership edge. -/
theorem isOwnership_of_mem_usagesFrom {method : MethodDecl} {c : Candidate}
    (h : c ∈ usagesFrom answers method) : c.kind.isOwnership = false := by
  rcases List.mem_append.mp h with hreference | hstatic
  · obtain ⟨b, -, hc⟩ := List.mem_flatMap.mp hreference
    exact Usage.isOwnership_of_mem_candidates hc
  · obtain ⟨call, -, hc⟩ := List.mem_flatMap.mp hstatic
    exact Usage.isOwnership_of_mem_candidates hc

/-- Ownership comes from fields only. -/
theorem mem_candidatesFrom_iff {c : Candidate} (hkind : c.kind.isOwnership = true) :
    c ∈ candidatesFrom answers decl
      ↔ ∃ f ∈ decl.fields, c ∈ (memberFrom answers decl f).candidates := by
  unfold candidatesFrom
  rw [List.mem_append, List.mem_append, List.mem_flatMap]
  constructor
  · rintro ((hsup | hfield) | huse)
    · obtain ⟨sup, -, hc⟩ := List.mem_filterMap.mp hsup
      rw [isOwnership_of_supertypeFrom hc] at hkind
      cases hkind
    · exact hfield
    · obtain ⟨method, -, hc⟩ := List.mem_flatMap.mp (List.mem_filter.mp huse).1
      rw [isOwnership_of_mem_usagesFrom hc] at hkind
      cases hkind
  · intro hfield
    exact .inl (.inr hfield)

/-- The kind of an ownership candidate settles its multiplicity. -/
theorem multiplicity_of_mem_candidatesFrom {c : Candidate} (hkind : c.kind.isOwnership = true)
    (h : c ∈ candidatesFrom answers decl) :
    c.multiplicity = some (if c.kind = .composition then .one else .many) := by
  obtain ⟨f, -, hc⟩ := (mem_candidatesFrom_iff hkind).mp h
  cases hk : c.kind with
  | composition => exact ((StoredMember.mem_candidates_of_composition hk).mp hc).2.2.1
  | aggregation => exact ((StoredMember.mem_candidates_of_aggregation hk).mp hc).2.2.1
  | inheritance | realization | association | dependency =>
    rw [hk] at hkind
    cases hkind

/-- The set of edges hides no candidate of an ownership kind: one that comes first for its
key is equal to it. -/
theorem mem_edgesFrom_iff {r : Relationship} (hkind : r.kind.isOwnership = true) :
    r ∈ edgesFrom answers decl ↔ r.source = decl.name
      ∧ ∃ f ∈ decl.fields, r.toCandidate ∈ (memberFrom answers decl f).candidates := by
  rw [← mem_candidatesFrom_iff (c := r.toCandidate) hkind]
  constructor
  · intro h
    refine ⟨source_of_mem_edgesFrom h, ?_⟩
    rw [edgesFrom, RelationshipSet.ofList_edges] at h
    obtain ⟨c, hc, rfl⟩ := List.mem_map.mp (mem_of_mem_firstsAfter h)
    exact hc
  · rintro ⟨hsource, h⟩
    have hr : r = r.toCandidate.toRelationship decl.name := by rw [← hsource]; rfl
    rw [edgesFrom, RelationshipSet.ofList_edges]
    refine mem_firstsAfter_of_unique (List.mem_map.mpr ⟨_, h, hr.symm⟩) ?_
    intro r' hr' hkey
    obtain ⟨c, hc, rfl⟩ := List.mem_map.mp hr'
    -- the keys agree on all but the multiplicity, and that is a matter of the kind
    have htarget : c.target = r.target := congrArg RelationshipKey.target hkey
    have hkind' : c.kind = r.kind := congrArg RelationshipKey.kind hkey
    have hlabel : c.label = r.label := congrArg RelationshipKey.label hkey
    have hmult : c.multiplicity = r.multiplicity := by
      rw [multiplicity_of_mem_candidatesFrom (hkind' ▸ hkind) hc, hkind']
      exact (multiplicity_of_mem_candidatesFrom (c := r.toCandidate) hkind h).symm
    rw [hr]
    unfold Candidate.toRelationship Relationship.toCandidate
    rw [htarget, hkind', hmult, hlabel]

theorem memberFrom_clue {f : FieldDecl} {target : String}
    (h : answers.resolution f.type = .scalar target) :
    (memberFrom answers decl f).clue
      = decl.ownershipClue (Resolver.ofAnswers answers) f target := by
  unfold memberFrom
  dsimp only
  rw [h]

/-- The compositions of a declaration: fields that resolve to one entity, are not injected and
are built by the declaration itself. -/
theorem mem_edgesFrom_of_composition {r : Relationship} (hkind : r.kind = .composition) :
    r ∈ edgesFrom answers decl ↔ r.source = decl.name ∧ r.multiplicity = some .one
      ∧ ∃ f ∈ decl.fields, r.label = some f.name ∧ answers f.type = .ok (.scalar r.target)
        ∧ ¬decl.IsInjected f.name ∧ decl.IsBuilt answers f r.target := by
  rw [mem_edgesFrom_iff (by rw [hkind]; rfl)]
  refine and_congr_right fun _ => ?_
  have hscalar : ∀ f : FieldDecl, answers.resolution f.type = .scalar r.target
      ↔ answers f.type = .ok (.scalar r.target) :=
    fun f => Answers.resolution_eq_iff (by simp)
  constructor
  · rintro ⟨f, hf, hc⟩
    obtain ⟨hres, hclue, hmult, hlabel⟩ :=
      (StoredMember.mem_candidates_of_composition (c := r.toCandidate) hkind).mp hc
    rw [memberFrom_clue hres] at hclue
    obtain ⟨hfree, hbuilt⟩ := (ownershipClue_eq_constructedInline answers decl).mp hclue
    exact ⟨hmult, f, hf, hlabel, (hscalar f).mp hres, hfree, hbuilt⟩
  · rintro ⟨hmult, f, hf, hlabel, hanswer, hevidence⟩
    have hres := (hscalar f).mpr hanswer
    refine ⟨f, hf,
      (StoredMember.mem_candidates_of_composition (c := r.toCandidate) hkind).mpr
        ⟨hres, ?_, hmult, hlabel⟩⟩
    rw [memberFrom_clue hres]
    exact (ownershipClue_eq_constructedInline answers decl).mpr hevidence

/-- The aggregations of a declaration: fields that resolve to a collection. -/
theorem mem_edgesFrom_of_aggregation {r : Relationship} (hkind : r.kind = .aggregation) :
    r ∈ edgesFrom answers decl ↔ r.source = decl.name ∧ r.multiplicity = some .many
      ∧ ∃ f ∈ decl.fields, r.label = some f.name
        ∧ ∃ res, answers f.type = .ok res ∧ res.isCollection = true ∧ r.target ∈ res.targets := by
  rw [mem_edgesFrom_iff (by rw [hkind]; rfl)]
  refine and_congr_right fun _ => ?_
  constructor
  · rintro ⟨f, hf, hc⟩
    obtain ⟨hcollection, htarget, hmult, hlabel⟩ :=
      (StoredMember.mem_candidates_of_aggregation (c := r.toCandidate) hkind).mp hc
    refine ⟨hmult, f, hf, hlabel, answers.resolution f.type, ?_, hcollection, htarget⟩
    -- a collection is not what an unanswered type is taken for
    refine (Answers.resolution_eq_iff fun hforeign => ?_).mp rfl
    have hmember : (memberFrom answers decl f).resolution = .foreign := hforeign
    rw [hmember] at hcollection
    cases hcollection
  · rintro ⟨hmult, f, hf, hlabel, res, hanswer, hcollection, htarget⟩
    have hres : (memberFrom answers decl f).resolution = res := by
      show answers.resolution f.type = res
      rw [Answers.resolution, hanswer]
    refine ⟨f, hf,
      (StoredMember.mem_candidates_of_aggregation (c := r.toCandidate) hkind).mpr ?_⟩
    rw [hres]
    exact ⟨hcollection, htarget, hmult, hlabel⟩

/-- **Ownership is inferred exactly on evidence.** Let a resolver that remembers anything at
all classify a declaration with success, and let it be asked about types afterwards. There
is a composition to a target, under a label, if and only if a field of that name resolves
to the single target, no constructor or method injects it, and the declaration builds it;
its multiplicity is one. There is an aggregation if and only if a field of that name
resolves to a collection with the target in it; its multiplicity is many. Neither the
supertypes nor the uses of a declaration ever have a candidate of these kinds. -/
theorem relationships_ownership (s : Scope) (decl : ClassDecl) (m m' : Memo)
    (rs : List Relationship)
    (h : (decl.relationships (Resolver.remembering s)).run m = (.ok rs, m')) :
    (∀ r : Relationship, r.kind = .composition →
      (r ∈ rs ↔ r.source = decl.name ∧ r.multiplicity = some .one
        ∧ ∃ f ∈ decl.fields, r.label = some f.name
          ∧ s.answers m' f.type = .ok (.scalar r.target)
          ∧ ¬decl.IsInjected f.name ∧ decl.IsBuilt (s.answers m') f r.target))
    ∧ (∀ r : Relationship, r.kind = .aggregation →
      (r ∈ rs ↔ r.source = decl.name ∧ r.multiplicity = some .many
        ∧ ∃ f ∈ decl.fields, r.label = some f.name
          ∧ ∃ res, s.answers m' f.type = .ok res ∧ res.isCollection = true
            ∧ r.target ∈ res.targets))
    ∧ (∀ (before after : Memo) (found : List Candidate),
      (decl.supertypeCandidates (Resolver.remembering s)).run before = (.ok found, after) →
        ∀ c ∈ found, c.kind.isOwnership = false)
    ∧ (∀ (before after : Memo) (found : List Candidate),
      (decl.usageCandidates (Resolver.remembering s)).run before = (.ok found, after) →
        ∀ c ∈ found, c.kind.isOwnership = false) := by
  -- from here on the resolver is the table of its answers at the end
  have hrs : rs = edgesFrom (s.answers m') decl :=
    (relationships_yields _ decl).eq_of_run_eq_ok ((relationships_consults s decl).run_eq_ok h)
  subst hrs
  refine ⟨fun r hkind => mem_edgesFrom_of_composition hkind,
    fun r hkind => mem_edgesFrom_of_aggregation hkind, ?_, ?_⟩
  · intro before after found hfound c hc
    have hend := (supertypeCandidates_consults s decl).run_eq_ok hfound
    rw [(supertypeCandidates_yields _ decl).eq_of_run_eq_ok hend] at hc
    obtain ⟨sup, -, hsup⟩ := List.mem_filterMap.mp hc
    exact isOwnership_of_supertypeFrom hsup
  · intro before after found hfound c hc
    have hend := (usageCandidates_consults s decl).run_eq_ok hfound
    rw [(usageCandidates_yields _ decl).eq_of_run_eq_ok hend] at hc
    obtain ⟨method, -, huse⟩ := List.mem_flatMap.mp (List.mem_filter.mp hc).1
    exact isOwnership_of_mem_usagesFrom huse

/-- A known type is resolved to itself. -/
theorem resolve_plain_room (settings : ResolverSettings) :
    Scope.resolve ⟨⟨["Room"], ∅, []⟩, settings⟩ (.plain "Room") = .ok (.scalar "Room") := by
  have hrole : Scope.role ⟨⟨["Room"], ∅, []⟩, settings⟩ "Room"
      = .leaf (.ok (.scalar "Room")) := by
    rw [Scope.role, TypeTable.lookup_of_contains rfl]
    rfl
  show Scope.resolve _ (.named "Room" []) = _
  rw [Scope.resolve, hrole]

/-- A hub that makes its room where it declares it owns the room. -/
theorem relationships_ownership_room :
    ∃ rs m', (ClassDecl.relationships (Resolver.remembering ⟨⟨["Room"], ∅, []⟩, {}⟩)
        { name := "Hub", kind := .class,
          fields := [{ name := "room", type := .plain "Room",
                       initializer := .construct (.plain "Room") }] }).run .empty = (.ok rs, m')
      ∧ ⟨"Hub", "Room", .composition, some .one, some "room"⟩ ∈ rs := by
  have hrequired : [TypeRef.plain "Room"].findSome?
      (Answers.unresolved? (Scope.resolve ⟨⟨["Room"], ∅, []⟩, {}⟩)) = none := by
    rw [List.findSome?_cons, Answers.unresolved?, resolve_plain_room]
    rfl
  obtain ⟨m', hrun, hanswers⟩ := relationships_of_resolved
    { name := "Hub", kind := .class,
      fields := [{ name := "room", type := .plain "Room",
                   initializer := .construct (.plain "Room") }] }
    ⟨⟨["Room"], ∅, []⟩, {}⟩ (by decide) hrequired
  have hroom := (hanswers (.plain "Room") (by decide)).trans (resolve_plain_room {})
  refine ⟨_, m', hrun, ((relationships_ownership _ _ _ _ _ hrun).1 _ rfl).mpr ?_⟩
  -- nothing is injected where there is no constructor or method
  refine ⟨rfl, rfl, _, List.mem_cons_self, rfl, hroom, ?_, .inl ⟨_, rfl, hroom⟩⟩
  rintro ⟨method, hmethod, -⟩
  cases hmethod

end ClassDecl

end ClassDiagram
