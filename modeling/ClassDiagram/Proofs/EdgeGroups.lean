import ClassDiagram.Proofs.MemoInvariant
import ClassDiagram.Proofs.References

/-!
# The groups of edges

The edges of a declaration go through one set, which drops what repeats a key: first those
of its supertypes, then those of its fields, then those of its uses. Nothing keeps one group
from taking the place of another but the keys themselves, and no two groups have a key in
common:

* only supertypes have no label,
* the label of a field is its name, and no two fields share one,
* no use leads to what a field holds.

So the set could as well be made of its groups one by one (`edgesFrom_eq_groups`). Within a
group less than a whole key tells its candidates apart, for they agree on the rest: target
and kind among supertypes, the target alone within a field.
-/

namespace ClassDiagram

/-! ## What tells candidates apart -/

namespace Candidate

/-- The key of the edge that a candidate becomes. -/
def key (source : String) (c : Candidate) : RelationshipKey :=
  (c.toRelationship source).key

theorem key_eq_iff {source : String} {c c' : Candidate} :
    c.key source = c'.key source
      ↔ c.target = c'.target ∧ c.kind = c'.kind ∧ c.label = c'.label := by
  unfold key toRelationship Relationship.key
  rw [RelationshipKey.mk.injEq]
  exact and_iff_right rfl

/-- Where all have the same source, the rest of the key counts. -/
theorem firstsAfter_key (source : String) (l : List Candidate) :
    firstsAfter (key source) [] l
      = l.eraseDupsBy fun a b => (a.target, a.kind, a.label) == (b.target, b.kind, b.label) := by
  refine firstsAfter_nil_of_key (fun c : Candidate => (c.target, c.kind, c.label))
    fun c _ c' _ => ?_
  rw [key_eq_iff, Prod.mk.injEq, Prod.mk.injEq]

/-- Without labels, target and kind count. -/
theorem firstsAfter_key_of_unlabelled (source : String) {l : List Candidate}
    (h : ∀ c ∈ l, c.label = none) :
    firstsAfter (key source) [] l
      = l.eraseDupsBy fun a b => (a.target, a.kind) == (b.target, b.kind) := by
  refine firstsAfter_nil_of_key (fun c : Candidate => (c.target, c.kind)) fun c hc c' hc' => ?_
  rw [key_eq_iff, h c hc, h c' hc', Prod.mk.injEq]
  exact and_congr_right fun _ => and_iff_left rfl

end Candidate

theorem Usage.label_of_mem_candidates {u : Usage} {r : Resolution} {label : String}
    {c : Candidate} (h : c ∈ u.candidates r label) : c.label = some label := by
  obtain ⟨target, -, rfl⟩ := List.mem_map.mp h
  cases u with
  | memberAccess | passThrough | static => rfl

/-- A field is kept in one way, whatever it leads to. -/
theorem StoredMember.kind_eq_of_mem_candidates {member : StoredMember} {c c' : Candidate}
    (h : c ∈ member.candidates) (h' : c' ∈ member.candidates) : c.kind = c'.kind := by
  unfold candidates at h h'
  cases hres : member.resolution with
  | foreign => rw [hres] at h; cases h
  | scalar t | optional t =>
    rw [hres] at h h'
    rw [List.mem_singleton.mp h, List.mem_singleton.mp h']
  | list t | set t | map key value =>
    rw [hres] at h h'
    obtain ⟨target, -, rfl⟩ := List.mem_map.mp h
    obtain ⟨target', -, rfl⟩ := List.mem_map.mp h'
    rfl

/-- Within one field the target alone counts. -/
theorem StoredMember.firstsAfter_key (source : String) (member : StoredMember) :
    firstsAfter (Candidate.key source) [] member.candidates
      = member.candidates.eraseDupsBy fun a b => a.target == b.target := by
  refine firstsAfter_nil_of_key Candidate.target fun c hc c' hc' => ?_
  rw [Candidate.key_eq_iff, kind_eq_of_mem_candidates hc hc', label_of_mem_candidates hc,
    label_of_mem_candidates hc']
  exact and_iff_left ⟨rfl, rfl⟩

namespace ClassDecl

variable (answers : Answers) (decl : ClassDecl)

/-- The candidates for what the type uses without storing it. -/
def usesFrom : List Candidate :=
  (decl.callables.flatMap (usagesFrom answers)).filter fun c =>
    c.target != decl.name && !(storedFrom answers decl).contains c.target

variable {answers decl}

theorem mem_usesFrom {c : Candidate} :
    c ∈ usesFrom answers decl ↔ (∃ method ∈ decl.callables, c ∈ usagesFrom answers method)
      ∧ c.target ≠ decl.name ∧ c.target ∉ storedFrom answers decl := by
  unfold usesFrom
  rw [List.mem_filter, List.mem_flatMap, Bool.and_eq_true, bne_iff_ne, Bool.not_eq_true',
    List.contains_eq_mem, decide_eq_false_iff_not]

/-- Supertypes have no label. -/
theorem label_of_mem_supertypes {c : Candidate}
    (h : c ∈ decl.supertypes.filterMap (supertypeFrom answers decl)) : c.label = none := by
  obtain ⟨sup, -, hsup⟩ := List.mem_filterMap.mp h
  unfold supertypeFrom at hsup
  split at hsup
  · split at hsup
    · cases hsup
    · cases hsup; rfl
  · cases hsup

/-- Fields have labels, and what they lead to is stored. -/
theorem of_mem_members {c : Candidate}
    (h : c ∈ decl.fields.flatMap fun f => (memberFrom answers decl f).candidates) :
    c.label ≠ none ∧ c.target ∈ storedFrom answers decl := by
  obtain ⟨f, hf, hc⟩ := List.mem_flatMap.mp h
  rw [StoredMember.label_of_mem_candidates hc]
  refine ⟨Option.some_ne_none _, List.mem_flatMap.mpr ⟨f, hf, ?_⟩⟩
  have htarget := List.mem_map_of_mem (f := Candidate.target) hc
  rwa [StoredMember.map_target_candidates] at htarget

/-- Uses have labels, too, and lead to nothing that is stored. -/
theorem of_mem_usesFrom {c : Candidate} (h : c ∈ usesFrom answers decl) :
    c.label ≠ none ∧ c.target ∉ storedFrom answers decl := by
  obtain ⟨⟨method, -, hc⟩, -, hstored⟩ := mem_usesFrom.mp h
  refine ⟨?_, hstored⟩
  rcases List.mem_append.mp hc with hreference | hstatic
  · obtain ⟨b, -, hc⟩ := List.mem_flatMap.mp hreference
    rw [Usage.label_of_mem_candidates hc]
    exact Option.some_ne_none _
  · obtain ⟨call, -, hc⟩ := List.mem_flatMap.mp hstatic
    rw [Usage.label_of_mem_candidates hc]
    exact Option.some_ne_none _

/-! ## Group by group -/

/-- The uses stand apart from all that comes before them. -/
theorem edgesFrom_eq_append :
    edgesFrom answers decl
      = (firstsAfter (Candidate.key decl.name) []
            (decl.supertypes.filterMap (supertypeFrom answers decl)
              ++ decl.fields.flatMap fun f => (memberFrom answers decl f).candidates)
          ++ firstsAfter (Candidate.key decl.name) [] (usesFrom answers decl)).map
        (Candidate.toRelationship decl.name) := by
  rw [edgesFrom, RelationshipSet.ofList_edges, firstsAfter_map]
  refine congrArg _ (firstsAfter_append_of_disjoint fun c hc c' hc' hkey => ?_)
  obtain ⟨htarget, -, hlabel⟩ := Candidate.key_eq_iff.mp hkey
  obtain ⟨hlabelled, hstored⟩ := of_mem_usesFrom hc'
  rcases List.mem_append.mp hc with hsup | hfield
  · exact hlabelled (hlabel.symm.trans (label_of_mem_supertypes hsup))
  · exact hstored (htarget ▸ (of_mem_members hfield).2)

/-- **One group of edges never takes the place of another**, as long as no two fields share
a name: each group loses what repeats within it, and nothing else. -/
theorem edgesFrom_eq_groups (hnames : (decl.fields.map FieldDecl.name).Nodup) :
    edgesFrom answers decl
      = ((decl.supertypes.filterMap (supertypeFrom answers decl)).eraseDupsBy
            (fun a b => (a.target, a.kind) == (b.target, b.kind))
          ++ decl.fields.flatMap (fun f => (memberFrom answers decl f).candidates.eraseDupsBy
            fun a b => a.target == b.target)
          ++ (usesFrom answers decl).eraseDupsBy
            (fun a b => (a.target, a.kind, a.label) == (b.target, b.kind, b.label))).map
        (Candidate.toRelationship decl.name) := by
  have hsupertypes : ∀ c ∈ decl.supertypes.filterMap (supertypeFrom answers decl),
      ∀ c' ∈ decl.fields.flatMap fun f => (memberFrom answers decl f).candidates,
        c.key decl.name ≠ c'.key decl.name := by
    intro c hc c' hc' hkey
    have hlabel := (Candidate.key_eq_iff.mp hkey).2.2
    exact (of_mem_members hc').1 (hlabel.symm.trans (label_of_mem_supertypes hc))
  have hfields : decl.fields.Pairwise fun f g =>
      ∀ c ∈ (memberFrom answers decl f).candidates,
      ∀ c' ∈ (memberFrom answers decl g).candidates, c.key decl.name ≠ c'.key decl.name := by
    refine (List.pairwise_map.mp hnames).imp fun {f g} hne c hc c' hc' hkey => hne ?_
    have hlabel := (Candidate.key_eq_iff.mp hkey).2.2
    rw [StoredMember.label_of_mem_candidates hc,
      StoredMember.label_of_mem_candidates hc'] at hlabel
    exact Option.some.inj hlabel
  rw [edgesFrom_eq_append, firstsAfter_append_of_disjoint hsupertypes,
    firstsAfter_flatMap_of_disjoint hfields,
    Candidate.firstsAfter_key_of_unlabelled _ fun _ => label_of_mem_supertypes,
    Candidate.firstsAfter_key]
  simp only [StoredMember.firstsAfter_key]

/-! ## The steps of a successful classification -/

/-- What is done in two steps succeeds by both of them. -/
theorem exists_of_run_bind {ε α β : Type} {x : ExceptT ε Remembering α}
    {f : α → ExceptT ε Remembering β} {m m' : Memo} {b : β}
    (h : (x >>= f).run m = (.ok b, m')) :
    ∃ a m₁, x.run m = (.ok a, m₁) ∧ (f a).run m₁ = (.ok b, m') := by
  rw [ExceptT.run_bind] at h
  change ((match (x.run m).1 with
    | .ok a => (f a).run
    | .error e => pure (.error e)) : Remembering (Except ε β)) (x.run m).2 = (.ok b, m') at h
  cases hx : (x.run m).1 with
  | ok a =>
    rw [hx] at h
    exact ⟨a, _, Prod.ext hx rfl, h⟩
  | error e =>
    rw [hx] at h
    cases h

/-- The three steps of a classification that succeeds, each of which finds what the answers
at the end of the last one come to. -/
theorem exists_steps {s : Scope} {m m' : Memo} {rs : List Relationship}
    (h : (decl.relationships (Resolver.remembering s)).run m = (.ok rs, m')) :
    ∃ m₁ m₂,
      (decl.supertypeCandidates (Resolver.remembering s)).run m
          = (.ok (decl.supertypes.filterMap (supertypeFrom (s.answers m') decl)), m₁)
      ∧ (decl.fields.mapM (decl.storedMember (Resolver.remembering s))).run m₁
          = (.ok (decl.fields.map (memberFrom (s.answers m') decl)), m₂)
      ∧ (decl.usageCandidates (Resolver.remembering s)).run m₂
          = (.ok (usesFrom (s.answers m') decl), m') := by
  obtain ⟨supertypes, m₁, hsupertypes, h⟩ := exists_of_run_bind h
  obtain ⟨fields, m₂, hfields, h⟩ := exists_of_run_bind h
  obtain ⟨members, m₃, hmembers, hdone⟩ := exists_of_run_bind hfields
  obtain ⟨usages, m₄, husages, hlast⟩ := exists_of_run_bind h
  cases hdone
  cases hlast
  have hlookAhead := (usageCandidates_consults s decl).extends_of_run husages
  refine ⟨m₁, m₂, ?_, ?_, ?_⟩
  · have hend := (supertypeCandidates_consults s decl).run_eq_ok_of_extends hsupertypes
      (((fieldCandidates_consults s decl).extends_of_run hfields).trans hlookAhead)
    rw [hsupertypes, (supertypeCandidates_yields _ decl).eq_of_run_eq_ok hend]
  · have hend := (ConsultsOrFails.mapM fun f hf =>
      storedMember_consults s hf).run_eq_ok_of_extends hmembers hlookAhead
    rw [hmembers, (Yields.mapM fun f _ => storedMember_yields _ decl f).eq_of_run_eq_ok hend]
  · have hend := (usageCandidates_consults s decl).run_eq_ok husages
    rw [husages, (usageCandidates_yields _ decl).eq_of_run_eq_ok hend]
    rfl

/-- **Deduplication never lets one group of edges shadow another.** Let a declaration pass
the checks, and let a resolver classify it with success. The edges are those of the
candidates that its three steps find: the supertypes, without what repeats target and kind;
one field after the other, each without what repeats a target; and the uses, without what
repeats target, kind and label. The first one always stands. So every field whose type is
not foreign keeps an edge under its own name. For this last part the resolver has to
remember nothing but what it was asked for before: a memo could as well hold a map
without targets, but no type is ever resolved to one. -/
theorem relationships_grouped (s : Scope) (decl : ClassDecl) (m m' : Memo)
    (rs : List Relationship) (hvalid : Validation.checkDeclaration decl = .ok ())
    (h : (decl.relationships (Resolver.remembering s)).run m = (.ok rs, m')) :
    ∃ (supertypes : List Candidate) (members : List StoredMember) (usages : List Candidate)
      (m₁ m₂ : Memo),
      (decl.supertypeCandidates (Resolver.remembering s)).run m = (.ok supertypes, m₁)
      ∧ (decl.fields.mapM (decl.storedMember (Resolver.remembering s))).run m₁
          = (.ok members, m₂)
      ∧ (decl.usageCandidates (Resolver.remembering s)).run m₂ = (.ok usages, m')
      ∧ members.map StoredMember.name = decl.fields.map FieldDecl.name
      ∧ rs = (supertypes.eraseDupsBy (fun a b => (a.target, a.kind) == (b.target, b.kind))
          ++ members.flatMap (fun member =>
            member.candidates.eraseDupsBy fun a b => a.target == b.target)
          ++ usages.eraseDupsBy
            (fun a b => (a.target, a.kind, a.label) == (b.target, b.kind, b.label))).map
        (Candidate.toRelationship decl.name)
      ∧ (s.Attains m → ∀ f ∈ decl.fields, s.answers m' f.type ≠ .ok .foreign →
          ∃ e ∈ rs, e.label = some f.name ∧ (s.answers m').LeadsTo f.type e.target) := by
  obtain ⟨m₁, m₂, hsupertypes, hmembers, husages⟩ := exists_steps h
  obtain ⟨hrequired, hrs⟩ := of_relationships_run h
  refine ⟨_, _, _, m₁, m₂, hsupertypes, hmembers, husages, ?_, ?_, ?_⟩
  · rw [List.map_map]
    rfl
  · obtain ⟨-, hfields, -, -⟩ := Validation.checkDeclaration_eq_ok_iff.mp hvalid
    rw [hrs, edgesFrom_eq_groups (Validation.nodup_of_checkFields hfields).1, List.flatMap_map]
  · intro hm f hf hforeign
    obtain ⟨r, hr⟩ := hrequired f.type (field_mem_required hf)
    have hm' := (relationships_consults s decl).attains h hm
    obtain ⟨target, hlead⟩ := hm'.exists_leadsTo hr (fun hnone => hforeign (hnone ▸ hr))
    obtain ⟨c, hc, rfl, hlabel⟩ := exists_candidate_of_field hf hlead
    obtain ⟨e, he, hkey⟩ := exists_mem_edgesFrom hc
    refine ⟨e, hrs ▸ he, (congrArg RelationshipKey.label hkey).trans hlabel, ?_⟩
    rwa [show e.target = c.target from congrArg RelationshipKey.target hkey]

/-- A hub that is a room, said twice, has two fields that lead to rooms, one of them twice,
and greets a guest. -/
def loungeDecl : ClassDecl :=
  { name := "Hub", kind := .class,
    fields := [{ name := "links", type := .named "java.util.Map" [.plain "Room", .plain "Room"] },
               { name := "spare", type := .plain "Room" }],
    methods := [{ name := "greet", params := [⟨"guest", .plain "Guest"⟩] }],
    supertypes := [⟨.plain "Room", .extends⟩, ⟨.plain "Room", .extends⟩] }

/-- Three of its four edges lead to rooms: one for both supertypes and one for each field. -/
theorem relationships_grouped_lounge :
    Validation.checkDeclaration loungeDecl = .ok ()
    ∧ ∃ rs m', (loungeDecl.relationships
          (Resolver.remembering ⟨⟨["Hub", "Room", "Guest"], ∅, []⟩, {}⟩)).run .empty = (.ok rs, m')
      ∧ rs.map Relationship.label = [none, some "links", some "spare", some "guest"]
      ∧ (∃ (supertypes : List Candidate) (members : List StoredMember) (usages : List Candidate),
          members.map StoredMember.name = ["links", "spare"]
          ∧ rs = (supertypes.eraseDupsBy (fun a b => (a.target, a.kind) == (b.target, b.kind))
              ++ members.flatMap (fun member =>
                member.candidates.eraseDupsBy fun a b => a.target == b.target)
              ++ usages.eraseDupsBy
                (fun a b => (a.target, a.kind, a.label) == (b.target, b.kind, b.label))).map
            (Candidate.toRelationship "Hub"))
      ∧ ∃ e ∈ rs, e.label = some "links" ∧ e.target = "Room" := by
  have hvalid : Validation.checkDeclaration loungeDecl = .ok () := by decide
  have hlinks : Scope.resolve ⟨⟨["Hub", "Room", "Guest"], ∅, []⟩, {}⟩
      (.named "java.util.Map" [.plain "Room", .plain "Room"]) = .ok (.map ["Room"] ["Room"]) := rfl
  have hrequired : loungeDecl.required.findSome?
      (Answers.unresolved? (Scope.resolve ⟨⟨["Hub", "Room", "Guest"], ∅, []⟩, {}⟩)) = none := rfl
  obtain ⟨m', hrun, hanswers⟩ := relationships_of_resolved loungeDecl _ (by decide) hrequired
  have hanswer := (hanswers _ (by decide)).trans hlinks
  obtain ⟨supertypes, members, usages, -, -, -, -, -, hnames, hrs, hfields⟩ :=
    relationships_grouped _ _ _ _ _ hvalid hrun
  refine ⟨hvalid, _, m', hrun, rfl, ⟨supertypes, members, usages, hnames, hrs⟩, ?_⟩
  obtain ⟨e, he, hlabel, r, hr, htarget⟩ :=
    hfields .start _ List.mem_cons_self (hanswer ▸ nofun)
  cases hr.symm.trans hanswer
  exact ⟨e, he, hlabel, by simpa [Resolution.targets] using htarget⟩

end ClassDecl

end ClassDiagram
