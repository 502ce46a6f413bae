import ClassDiagram.Proofs.References
import ClassDiagram.Proofs.UnknownTypes

/-!
# The shape of every edge

What all edges of all diagrams have in common, whatever the declarations, the settings and
the names in them (`run_edges_wellFormed`). The kind of an edge settles whether it has a
multiplicity and a label; what is owned is in a field; and an edge leads back to its own
source only if a field holds that type.

Edges have three producers, and `ClassDecl.Draws` lists the seven forms that come out of
them: two from supertypes, three from fields and two from uses. Deduplication takes edges
away and changes none, so every edge has one of these forms (`draws_of_mem_edgesFrom`), and
what is said about all edges is said about seven forms.

Whether a field holds a type is for the resolver of the run to say, and this resolver
remembers. But it stands by its answers. So one table of answers serves all declarations at
once: those that are given when the last of them is classified (`Analysis.settled`).
-/

namespace ClassDiagram

/-- The kind settles what an edge carries: nothing towards a supertype, and otherwise a
label, with one target for a composition, many for an aggregation, some multiplicity for an
association and none for a dependency. -/
def Relationship.FitsKind (r : Relationship) : Prop :=
  match r.kind with
  | .inheritance | .realization => r.multiplicity = none ∧ r.label = none
  | .composition => r.multiplicity = some .one ∧ r.label.isSome = true
  | .aggregation => r.multiplicity = some .many ∧ r.label.isSome = true
  | .association => r.multiplicity.isSome = true ∧ r.label.isSome = true
  | .dependency => r.multiplicity = none ∧ r.label.isSome = true

namespace ClassDecl

/-- An edge as it may start at a declaration. -/
structure WellFormedEdge (answers : Answers) (decl : ClassDecl) (r : Relationship) : Prop where
  source : r.source = decl.name
  fitsKind : r.FitsKind
  /-- Interfaces realize nothing. -/
  realization : r.kind = .realization → decl.entity.kind ≠ .interface
  /-- Nothing is its own supertype. -/
  subtyping : r.kind.isSubtyping = true → r.isSelfLoop = false
  /-- What is owned is in a field that the box of the declaration shows. -/
  ownership : r.kind.isOwnership = true → ∃ f ∈ decl.entity.fields, r.label = some f.name
  /-- A loop comes from a field that holds the declared type. -/
  selfLoop : r.isSelfLoop = true →
    (r.kind = .composition ∨ r.kind = .aggregation ∨ r.kind = .association)
      ∧ ∃ f ∈ decl.fields, r.label = some f.name ∧ answers.LeadsTo f.type r.source

/-! ## The forms of an edge -/

/-- The forms of the edges that start at a declaration. The first two are for supertypes,
the next three for fields and the last two for uses. -/
inductive Draws (answers : Answers) (decl : ClassDecl) : Relationship → Prop
  | inherits {target : String} (hne : target ≠ decl.name) :
      Draws answers decl ⟨decl.name, target, .inheritance, none, none⟩
  | realizes {target : String} (hne : target ≠ decl.name) (hkind : decl.kind ≠ .interface) :
      Draws answers decl ⟨decl.name, target, .realization, none, none⟩
  | composes {f : FieldDecl} {target : String} (hf : f ∈ decl.fields)
      (hlead : answers.LeadsTo f.type target) :
      Draws answers decl ⟨decl.name, target, .composition, some .one, some f.name⟩
  | aggregates {f : FieldDecl} {target : String} (hf : f ∈ decl.fields)
      (hlead : answers.LeadsTo f.type target) :
      Draws answers decl ⟨decl.name, target, .aggregation, some .many, some f.name⟩
  | holds {f : FieldDecl} {target : String} (hf : f ∈ decl.fields)
      (hlead : answers.LeadsTo f.type target) (multiplicity : Multiplicity) :
      Draws answers decl ⟨decl.name, target, .association, some multiplicity, some f.name⟩
  | accesses {target : String} (hne : target ≠ decl.name) (multiplicity : Multiplicity)
      (label : String) :
      Draws answers decl ⟨decl.name, target, .association, some multiplicity, some label⟩
  | uses {target : String} (hne : target ≠ decl.name) (label : String) :
      Draws answers decl ⟨decl.name, target, .dependency, none, some label⟩

variable {answers : Answers} {decl : ClassDecl}

theorem kind_entity_ne_interface (h : decl.kind ≠ .interface) :
    decl.entity.kind ≠ .interface := by
  unfold entity
  cases hkind : decl.kind with
  | interface => exact absurd hkind h
  | «class» | abstractClass | enum => exact nofun

/-- An edge in one of the forms is well-formed. -/
theorem Draws.wellFormedEdge {r : Relationship} (h : Draws answers decl r) :
    WellFormedEdge answers decl r where
  source := by cases h <;> rfl
  fitsKind := by cases h <;> exact ⟨rfl, rfl⟩
  realization := by
    intro hkind
    cases h with
    | realizes _ hinterface => exact kind_entity_ne_interface hinterface
    | inherits | composes | aggregates | holds | accesses | uses => cases hkind
  subtyping := by
    intro hkind
    cases h with
    | inherits hne | realizes hne => exact beq_eq_false_iff_ne.mpr hne.symm
    | composes | aggregates | holds | accesses | uses => cases hkind
  ownership := by
    intro hkind
    cases h with
    | composes hf | aggregates hf => exact ⟨_, List.mem_map_of_mem hf, rfl⟩
    | inherits | realizes | holds | accesses | uses => cases hkind
  selfLoop := by
    intro hself
    have htarget : r.target = r.source := (beq_iff_eq.mp hself).symm
    cases h with
    -- only the forms of fields allow for it, and the field is the one in the form
    | inherits hne | realizes hne | accesses hne | uses hne => exact absurd htarget hne
    | composes hf hlead => exact ⟨.inl rfl, _, hf, rfl, htarget ▸ hlead⟩
    | aggregates hf hlead => exact ⟨.inr (.inl rfl), _, hf, rfl, htarget ▸ hlead⟩
    | holds hf hlead => exact ⟨.inr (.inr rfl), _, hf, rfl, htarget ▸ hlead⟩

/-! ## The producers -/

/-- A supertype draws an edge of its own kind, and not to the declaration itself. -/
theorem draws_of_supertypeFrom {sup : Supertype} {c : Candidate}
    (h : supertypeFrom answers decl sup = some c) :
    Draws answers decl (c.toRelationship decl.name) ∧ c.target ≠ decl.name := by
  obtain ⟨-, hne⟩ := supertypeFrom_target_iff.mp ⟨c, h, rfl⟩
  refine ⟨?_, hne⟩
  unfold supertypeFrom at h
  split at h
  next target _ =>
    split at h
    · cases h
    · cases h
      -- an interface inherits also what it is said to implement
      unfold Candidate.toRelationship SupertypeKind.edgeKind
      split
      · exact .inherits hne
      · exact .inherits hne
      next hkind => exact .realizes hne hkind
  · cases h

/-- A field draws an edge for each of its targets. -/
theorem draws_of_mem_candidates {f : FieldDecl} (hf : f ∈ decl.fields) {c : Candidate}
    (h : c ∈ (memberFrom answers decl f).candidates) :
    Draws answers decl (c.toRelationship decl.name) := by
  have hlead : ∀ target ∈ (memberFrom answers decl f).resolution.targets,
      answers.LeadsTo f.type target := fun _ => Answers.mem_targets_resolution.mp
  have hname : (memberFrom answers decl f).name = f.name := rfl
  generalize memberFrom answers decl f = member at h hlead hname
  obtain ⟨name, resolution, clue, nullable⟩ := member
  dsimp only at hname hlead
  subst hname
  cases resolution with
  | foreign => cases h
  | optional t =>
    rw [List.mem_singleton.mp h]
    exact .holds hf (hlead t List.mem_cons_self) _
  | scalar t =>
    rw [List.mem_singleton.mp h]
    cases clue with
    | constructedInline => exact .composes hf (hlead t List.mem_cons_self)
    | injected | unclear => exact .holds hf (hlead t List.mem_cons_self) _
  | list t | set t | map key value =>
    obtain ⟨target, htarget, rfl⟩ := List.mem_map.mp h
    exact .aggregates hf (hlead target htarget)

/-- A use draws an edge to each of its targets but the declaration itself. -/
theorem draws_of_usage {u : Usage} {r : Resolution} {label : String} {c : Candidate}
    (h : c ∈ u.candidates r label) (hne : c.target ≠ decl.name) :
    Draws answers decl (c.toRelationship decl.name) := by
  obtain ⟨target, -, rfl⟩ := List.mem_map.mp h
  cases u with
  | memberAccess => exact .accesses hne _ label
  | passThrough | static => exact .uses hne label

theorem draws_of_mem_usagesFrom {method : MethodDecl} {c : Candidate}
    (h : c ∈ usagesFrom answers method) (hne : c.target ≠ decl.name) :
    Draws answers decl (c.toRelationship decl.name) := by
  rcases List.mem_append.mp h with hreference | hstatic
  · obtain ⟨b, -, hc⟩ := List.mem_flatMap.mp hreference
    exact draws_of_usage hc hne
  · obtain ⟨call, -, hc⟩ := List.mem_flatMap.mp hstatic
    exact draws_of_usage hc hne

/-- **Every edge has one of the forms.** -/
theorem draws_of_mem_edgesFrom {r : Relationship} (h : r ∈ edgesFrom answers decl) :
    Draws answers decl r := by
  rw [edgesFrom, RelationshipSet.ofList_edges] at h
  obtain ⟨c, hc, rfl⟩ := List.mem_map.mp (mem_of_mem_firstsAfter h)
  rcases List.mem_append.mp hc with hfirst | huse
  · rcases List.mem_append.mp hfirst with hsup | hfield
    · obtain ⟨sup, -, hsup⟩ := List.mem_filterMap.mp hsup
      exact (draws_of_supertypeFrom hsup).1
    · obtain ⟨f, hf, hmem⟩ := List.mem_flatMap.mp hfield
      exact draws_of_mem_candidates hf hmem
  · obtain ⟨huse, hkept⟩ := List.mem_filter.mp huse
    obtain ⟨method, -, hmem⟩ := List.mem_flatMap.mp huse
    rw [Bool.and_eq_true, bne_iff_ne] at hkept
    exact draws_of_mem_usagesFrom hmem hkept.1

/-- Neither a supertype nor a use leads back to the declaration. -/
theorem target_ne_of_supertypes_or_usages (s : Scope) (before after : Memo)
    (found : List Candidate)
    (h : (decl.supertypeCandidates (Resolver.remembering s)).run before = (.ok found, after)
      ∨ (decl.usageCandidates (Resolver.remembering s)).run before = (.ok found, after)) :
    ∀ c ∈ found, c.target ≠ decl.name := by
  intro c hc
  rcases h with hfound | hfound
  · have hend := (supertypeCandidates_consults s decl).run_eq_ok hfound
    rw [(supertypeCandidates_yields _ decl).eq_of_run_eq_ok hend] at hc
    obtain ⟨sup, -, hsup⟩ := List.mem_filterMap.mp hc
    exact (draws_of_supertypeFrom hsup).2
  · have hend := (usageCandidates_consults s decl).run_eq_ok hfound
    rw [(usageCandidates_yields _ decl).eq_of_run_eq_ok hend] at hc
    have hkept := (List.mem_filter.mp hc).2
    rw [Bool.and_eq_true, bne_iff_ne] at hkept
    exact hkept.1

end ClassDecl

/-! ## The answers that a run settles on -/

namespace Analysis

open ClassDecl

theorem classifyAll_extends (s : Scope) (decls : List ClassDecl) (m : Memo) :
    m.Extends (classifyAll s decls m).2 := by
  induction decls generalizing m with
  | nil => exact Memo.Extends.refl m
  | cons d rest ih =>
    rw [classifyAll_cons]
    exact ((relationships_consults s d).grows m).trans (ih _)

/-- All outcomes of a run are read off one table of answers, those given at its end or at
any time after that. -/
theorem classifyAll_of_extends {s : Scope} {decls : List ClassDecl} {m later : Memo}
    (h : (classifyAll s decls m).2.Extends later) :
    (classifyAll s decls m).1 = decls.map (outcomeFrom (s.answers later)) := by
  induction decls generalizing m with
  | nil => rfl
  | cons d rest ih =>
    rw [classifyAll_cons] at h ⊢
    -- the declarations that follow take back nothing of what `d` was told
    have hfirst := (classifyAll_extends s rest _).trans h
    rw [List.map_cons, relationships_run_of_extends d s hfirst, ih h]

section

variable (settings : ResolverSettings) (decls : List ClassDecl)

/-- What the resolver of a run answers when all declarations are classified. -/
def settled : Answers :=
  (scopeOf settings (kept decls)).answers
    ((classifyAll (scopeOf settings (kept decls)) (kept decls)).run .empty).2

theorem outcomes_eq_settled :
    outcomes settings decls = (kept decls).map (outcomeFrom (settled settings decls)) :=
  classifyAll_of_extends (Memo.Extends.refl _)

/-- Every edge of a diagram starts at a kept declaration, as one of its edges. -/
theorem exists_mem_edgesFrom_settled {r : Relationship}
    (h : r ∈ (ofValid settings decls).diagram.relationships) :
    ∃ d ∈ kept decls, r ∈ edgesFrom (settled settings decls) d := by
  rw [ofValid_relationships, outcomes_eq_settled, List.flatMap_map] at h
  obtain ⟨d, hd, hr⟩ := List.mem_flatMap.mp h
  unfold outcomeFrom at hr
  split at hr
  · cases hr
  · exact ⟨d, hd, hr⟩

/-- The entity that has the name of a kept declaration is its box. -/
theorem ofValid_entity? {d : ClassDecl} (hd : d ∈ kept decls) :
    (ofValid settings decls).diagram.entity? d.name = some d.entity := by
  have hfind : (kept decls).find? (fun e => e.name == d.name) = some d := by
    rw [← List.head?_filter, filter_name_eq (nodup_kept decls) hd]
    rfl
  have hbox : ((kept decls).map ClassDecl.entity).find? (fun e => e.name == d.name)
      = some d.entity := by
    rw [List.find?_map]
    exact congrArg (Option.map ClassDecl.entity) hfind
  unfold Diagram.entity?
  rw [ofValid_entities, List.find?_append, hbox]
  rfl

end

/-- **The shape of every edge.** Whenever a run succeeds, each relationship of its diagram
starts at the box of a declaration, which is no stub, and is a well-formed edge of that
declaration: its kind settles its multiplicity and whether it has a label, no interface
realizes anything, nothing is its own supertype, what is owned is in a field, and a loop
comes from a field that holds the declared type by the answers of the run. Nor is there
anything else that a loop might come from: what is found for supertypes, parameters, local
variables and static calls never leads back. -/
theorem run_edges_wellFormed (settings : ResolverSettings) (decls : List ClassDecl)
    (a : Analysis) (hrun : run settings decls = .ok a) :
    (∀ r ∈ a.diagram.relationships, ∃ d ∈ kept decls,
      a.diagram.entity? r.source = some d.entity ∧ d.entity.isExternal = false
        ∧ d.WellFormedEdge (settled settings decls) r)
    ∧ ∀ d ∈ kept decls, ∀ (before after : Memo) (found : List Candidate),
      (d.supertypeCandidates (Resolver.remembering (scopeOf settings (kept decls)))).run before
          = (.ok found, after)
        ∨ (d.usageCandidates (Resolver.remembering (scopeOf settings (kept decls)))).run before
          = (.ok found, after) →
      ∀ c ∈ found, c.target ≠ d.name := by
  obtain ⟨-, rfl⟩ := run_eq_ok_iff.mp hrun
  refine ⟨fun r hr => ?_, fun d _ => target_ne_of_supertypes_or_usages _⟩
  obtain ⟨d, hd, hedge⟩ := exists_mem_edgesFrom_settled settings decls hr
  have hsource : r.source = d.name := source_of_mem_edgesFrom hedge
  refine ⟨d, hd, ?_, entity_isExternal d, (draws_of_mem_edgesFrom hedge).wellFormedEdge⟩
  rw [hsource]
  exact ofValid_entity? settings decls hd

theorem nodes_resolve_list :
    (scopeOf {} [nodeDecl]).resolve (.named "List" [.plain "Node"]) = .ok (.list "Node") := by
  have hlookup : (scopeOf {} [nodeDecl]).table.lookup "List" = none := by
    refine TypeTable.lookup_eq_none (indexed_scopeOf {} _) (by decide) ?_
    show ∀ known ∈ ["Node"], _
    decide
  have hlist : (scopeOf {} [nodeDecl]).role "List" = .wrapper .list false := by
    rw [Scope.role, hlookup]
    rfl
  have hnode : (scopeOf {} [nodeDecl]).resolve (.plain "Node") = .ok (.scalar "Node") :=
    Scope.resolve_of_knows rfl rfl []
  rw [Scope.resolve, hlist]
  show Except.map _ ((scopeOf {} [nodeDecl]).resolve (.plain "Node")) = _
  rw [hnode]
  rfl

/-- A node aggregates its children, which are nodes: a loop, and there is the field. -/
theorem run_edges_wellFormed_nodes :
    ∃ a, run {} [nodeDecl] = .ok a
      ∧ ⟨"Node", "Node", .aggregation, some .many, some "children"⟩ ∈ a.diagram.relationships
      ∧ a.diagram.entity? "Node" = some nodeDecl.entity
      ∧ (settled {} [nodeDecl]).LeadsTo (.named "List" [.plain "Node"]) "Node" := by
  have hrun : run {} [nodeDecl] = .ok (ofValid {} [nodeDecl]) := run_of_valid {} rfl
  have hedge : ⟨"Node", "Node", .aggregation, some .many, some "children"⟩
      ∈ (ofValid {} [nodeDecl]).diagram.relationships := by
    have hanswers : ∀ t ∈ nodeDecl.types,
        (scopeOf {} [nodeDecl]).resolve t = (fun _ => .ok (.list "Node") : Answers) t := by
      intro t ht
      rw [List.mem_singleton.mp ht]
      exact nodes_resolve_list
    rw [ofValid_relationships_of_unambiguous {} (by decide)]
    refine List.mem_flatMap.mpr ⟨nodeDecl, List.mem_cons_self, ?_⟩
    show _ ∈ edgesOf (outcomeFrom (scopeOf {} [nodeDecl]).resolve nodeDecl)
    rw [outcomeFrom_congr _ hanswers]
    exact List.mem_cons_self
  obtain ⟨d, hd, hentity, -, hwell⟩ := (run_edges_wellFormed {} [nodeDecl] _ hrun).1 _ hedge
  obtain rfl := List.mem_singleton.mp hd
  obtain ⟨-, f, hf, -, hlead⟩ := hwell.selfLoop rfl
  rw [List.mem_singleton.mp hf] at hlead
  exact ⟨_, hrun, hedge, hentity, hlead⟩

end Analysis

end ClassDiagram
