import ClassDiagram.Proofs.FirstOccurrences

/-!
# What a draft becomes

A draft takes entities and relationships in any order, refuses an entity whose name is
taken, and gets its stubs when it is finished. `finish_after` says what comes out after
any calls whatsoever, in terms of the calls alone: the first entity of each name, then one
stub for each endpoint that never got an entity, and the first relationship of each key.

One call is described by `serve_entities` and `serve_relationships`: it offers its entities
and relationships to the two collections, and each collection takes what is new to it. A
run of calls therefore amounts to offering everything in one go (`after_entities`,
`after_relationships`).

Stubs are made from the relationships that were kept, but they can be told from those
that were offered: a relationship that is dropped has the endpoints of the one before it
with its key, so these have been met already (`firstsAfter_endpoints`).
-/

namespace ClassDiagram.Draft

/-! ## Calls -/

/-- A call on a draft. -/
inductive Call where
  | entity (e : Entity)
  | relationships (rs : List Relationship)

namespace Call

def entities : Call → List Entity
  | .entity e => [e]
  | .relationships _ => []

def edges : Call → List Relationship
  | .entity _ => []
  | .relationships rs => rs

end Call

/-- The answer to a call, and the draft that it leaves behind. -/
def serve (b : Draft) : Call → Except AnalysisError Unit × Draft
  | .entity e =>
    match b.addEntity e with
    | .ok b' => (.ok (), b')
    | .error err => (.error err, b)
  | .relationships rs => (.ok (), b.addRelationships rs)

/-- The draft after calls, one after the other. -/
def after (b : Draft) (calls : List Call) : Draft :=
  calls.foldl (fun b call => (b.serve call).2) b

/-- All entities that calls offer, those that are refused included. -/
def offered (calls : List Call) : List Entity :=
  calls.flatMap Call.entities

/-- All relationships that calls offer. -/
def drawn (calls : List Call) : List Relationship :=
  calls.flatMap Call.edges

/-- An entity whose name is taken is refused, and the draft stays as it was; any other
goes to the end. -/
theorem serve_entity (b : Draft) (e : Entity) :
    b.serve (.entity e)
      = if e.name ∈ b.entities.map Entity.name then (.error (.duplicateEntity e.name), b)
        else (.ok (), { b with entities := b.entities ++ [e] }) := by
  rw [serve, addEntity, any_key_eq Entity.name b.entities e]
  by_cases h : e.name ∈ b.entities.map Entity.name
  · rw [if_pos (List.contains_iff_mem.mpr h), if_pos h]
  · rw [if_neg (fun hmem => h (List.contains_iff_mem.mp hmem)), if_neg h]

/-- One call adds to the entities what it offers and is new. -/
theorem serve_entities (b : Draft) (call : Call) :
    (b.serve call).2.entities = call.entities.foldl (keepNew Entity.name) b.entities := by
  cases call with
  | relationships rs => rfl
  | entity e =>
    -- what is refused is what `keepNew` passes over
    rw [Call.entities, List.foldl_cons, List.foldl_nil, serve, addEntity, keepNew]
    cases b.entities.any fun old => old.name == e.name with
    | true => rfl
    | false => rfl

theorem serve_relationships (b : Draft) (call : Call) :
    (b.serve call).2.relationships = b.relationships.extend call.edges := by
  cases call with
  | relationships rs => rfl
  | entity e =>
    rw [serve_entity]
    split <;> rfl

/-- Calls add to the entities, of all that they offer, the first for each new name. -/
theorem after_entities (b : Draft) (calls : List Call) :
    (b.after calls).entities
      = b.entities ++ firstsAfter Entity.name (b.entities.map Entity.name) (offered calls) := by
  rw [← foldl_keepNew]
  induction calls generalizing b with
  | nil => rfl
  | cons call rest ih =>
    show ((b.serve call).2.after rest).entities = _
    rw [ih, serve_entities, offered, offered, List.flatMap_cons, List.foldl_append]

theorem after_relationships (b : Draft) (calls : List Call) :
    (b.after calls).relationships = b.relationships.extend (drawn calls) := by
  induction calls generalizing b with
  | nil => rfl
  | cons call rest ih =>
    show ((b.serve call).2.after rest).relationships = _
    rw [ih, serve_relationships, drawn, drawn, List.flatMap_cons]
    exact List.foldl_append.symm

theorem entities_after_empty (calls : List Call) :
    (empty.after calls).entities = firstsAfter Entity.name [] (offered calls) :=
  after_entities empty calls

theorem edges_after_empty (calls : List Call) :
    (empty.after calls).relationships.edges
      = firstsAfter Relationship.key [] (drawn calls) := by
  rw [after_relationships]
  exact RelationshipSet.ofList_edges _

/-- The names with an entity after some calls are those that were offered. -/
theorem mem_names_after {calls : List Call} {name : String} :
    name ∈ (empty.after calls).entities.map Entity.name
      ↔ name ∈ (offered calls).map Entity.name := by
  rw [entities_after_empty, mem_map_firstsAfter]
  exact and_iff_left List.not_mem_nil

/-! ## Endpoints and stubs -/

theorem mem_endpoints {rs : List Relationship} {name : String} :
    name ∈ endpoints rs ↔ ∃ r ∈ rs, r.source = name ∨ r.target = name := by
  unfold endpoints
  rw [List.mem_flatMap]
  refine exists_congr fun r => and_congr_right fun _ => ?_
  rw [List.mem_cons, List.mem_singleton, eq_comm, @eq_comm _ name r.target]

/-- Relationships that repeat a key bring no new endpoint. -/
theorem firstsAfter_endpoints {keys : List RelationshipKey} {seen : List String}
    (h : ∀ k ∈ keys, k.source ∈ seen ∧ k.target ∈ seen) (rs : List Relationship) :
    firstsAfter id seen (endpoints (firstsAfter Relationship.key keys rs))
      = firstsAfter id seen (endpoints rs) := by
  -- the endpoints of every key met so far have been seen
  induction rs generalizing keys seen with
  | nil => rfl
  | cons r rest ih =>
    have hcons : ∀ l, endpoints (r :: l) = [r.source, r.target] ++ endpoints l := fun _ => rfl
    rw [firstsAfter, hcons, firstsAfter_append]
    split
    next hkey =>
      have hseen := h r.key (List.contains_iff_mem.mp hkey)
      have hsource : seen.contains (id r.source) = true := List.contains_iff_mem.mpr hseen.1
      have htarget : seen.contains (id r.target) = true := List.contains_iff_mem.mpr hseen.2
      have hnone : firstsAfter id seen [r.source, r.target] = [] := by
        rw [firstsAfter, if_pos hsource, firstsAfter, if_pos htarget, firstsAfter]
      rw [hnone, List.nil_append, List.map_nil, List.append_nil]
      exact ih h
    next =>
      rw [hcons, firstsAfter_append]
      refine congrArg _ (ih fun k hk => ?_)
      rw [mem_append_map_firstsAfter, mem_append_map_firstsAfter]
      rcases List.mem_append.mp hk with hold | hnew
      · exact ⟨.inl (h k hold).1, .inl (h k hold).2⟩
      · rw [List.mem_singleton.mp hnew]
        exact ⟨.inr (by simp [Relationship.key]), .inr (by simp [Relationship.key])⟩

/-- Where every source was seen, the new endpoints are targets. -/
theorem firstsAfter_endpoints_of_sources {seen : List String} {rs : List Relationship}
    (h : ∀ r ∈ rs, r.source ∈ seen) :
    firstsAfter id seen (endpoints rs) = firstsAfter id seen (rs.map Relationship.target) := by
  induction rs generalizing seen with
  | nil => rfl
  | cons r rest ih =>
    have hsource : seen.contains (id r.source) = true :=
      List.contains_iff_mem.mpr (h r List.mem_cons_self)
    have hrest : ∀ r' ∈ rest, r'.source ∈ seen := fun r' hr' => h r' (List.mem_cons_of_mem _ hr')
    show firstsAfter id seen (r.source :: r.target :: endpoints rest) = _
    rw [firstsAfter, if_pos hsource, List.map_cons, firstsAfter, firstsAfter, ih hrest,
      ih fun r' hr' => List.mem_append_left _ (hrest r' hr')]

/-- Leaving out the edges to some targets leaves out these targets. -/
theorem firstsAfter_endpoints_filter {seen : List String} {rs : List Relationship}
    (h : ∀ r ∈ rs, r.source ∈ seen) (p : String → Bool) :
    firstsAfter id seen (endpoints (rs.filter fun r => p r.target))
      = (firstsAfter id seen (endpoints rs)).filter p := by
  rw [firstsAfter_endpoints_of_sources h,
    firstsAfter_endpoints_of_sources fun r hr => h r (List.mem_filter.mp hr).1]
  have hmap : (rs.filter fun r => p r.target).map Relationship.target
      = (rs.map Relationship.target).filter p := by
    rw [List.filter_map]
    rfl
  rw [hmap]
  exact firstsAfter_filter id p seen _

theorem names_finish (b : Draft) :
    b.finish.entities.map Entity.name = b.entities.map Entity.name
      ++ (firstsAfter id (b.entities.map Entity.name)
          (endpoints b.relationships.edges)).map id := by
  rw [finish_entities, List.map_append, List.map_map]
  rfl

/-- The names in a finished diagram: those of the draft's entities and all endpoints. -/
theorem mem_names_finish {b : Draft} {name : String} :
    name ∈ b.finish.entities.map Entity.name
      ↔ name ∈ b.entities.map Entity.name ∨ name ∈ endpoints b.relationships.edges := by
  rw [names_finish, mem_append_map_firstsAfter, List.map_id]

theorem finish_isClosed (b : Draft) : b.finish.isClosed = true := by
  have hcontains : ∀ name ∈ endpoints b.relationships.edges, b.finish.contains name = true := by
    intro name hname
    obtain ⟨e, he, rfl⟩ := List.mem_map.mp (mem_names_finish.mpr (.inr hname))
    exact List.any_eq_true.mpr ⟨e, he, beq_self_eq_true _⟩
  refine List.all_eq_true.mpr fun r hr => Bool.and_eq_true_iff.mpr ⟨?_, ?_⟩
  · exact hcontains _ (mem_endpoints.mpr ⟨r, hr, .inl rfl⟩)
  · exact hcontains _ (mem_endpoints.mpr ⟨r, hr, .inr rfl⟩)

theorem nodup_names_finish {b : Draft} (h : (b.entities.map Entity.name).Nodup) :
    (b.finish.entities.map Entity.name).Nodup := by
  rw [names_finish]
  exact nodup_append_firstsAfter h _

/-- The names for which stubs are made after calls: each endpoint that is offered no
entity, once and in the order in which they appear. -/
def stubNames (calls : List Call) : List String :=
  ((endpoints (drawn calls)).filter fun name =>
    !((offered calls).map Entity.name).contains name).eraseDups

/-- The stubs can be told from what was offered, instead of from what was kept. -/
theorem stubs_after_empty (calls : List Call) :
    firstsAfter id ((empty.after calls).entities.map Entity.name)
      (endpoints (empty.after calls).relationships.edges) = stubNames calls := by
  rw [edges_after_empty, firstsAfter_endpoints (fun _ hk => absurd hk List.not_mem_nil),
    firstsAfter_congr fun _ _ => mem_names_after, firstsAfter_eq_eraseDupsBy]
  rfl

/-- **What a draft becomes.** After any calls on an empty draft, the finished diagram has
the first entity offered for each name, in the order of the offers, and then a stub for
each endpoint that was offered no entity, in the order of their appearance; and it has the
first relationship offered for each key, in the order of the offers. One more entity is
refused if and only if one of its name was offered before; the answer then gives the name,
and the draft stays as it was. So no name and no key is there twice, the diagram is closed,
and every stub is an endpoint. -/
theorem finish_after (calls : List Call) :
    (empty.after calls).finish.entities
        = (offered calls).eraseDupsBy (fun e e' => e.name == e'.name)
          ++ (stubNames calls).map Entity.stub
    ∧ (empty.after calls).finish.relationships
        = (drawn calls).eraseDupsBy (fun r r' => r.key == r'.key)
    ∧ (∀ e : Entity, (empty.after calls).serve (.entity e)
        = if e.name ∈ (offered calls).map Entity.name then
            (.error (.duplicateEntity e.name), empty.after calls)
          else (.ok (), { empty.after calls with
            entities := (empty.after calls).entities ++ [e] }))
    ∧ ((empty.after calls).finish.entities.map Entity.name).Nodup
    ∧ ((empty.after calls).finish.relationships.map Relationship.key).Nodup
    ∧ (empty.after calls).finish.isClosed = true
    ∧ ∀ name ∈ stubNames calls, ∃ r ∈ (empty.after calls).finish.relationships,
        r.source = name ∨ r.target = name := by
  refine ⟨?_, ?_, ?_, ?_, ?_, finish_isClosed _, ?_⟩
  · rw [finish_entities, stubs_after_empty, entities_after_empty, firstsAfter_nil]
  · show (empty.after calls).relationships.edges = _
    rw [edges_after_empty, firstsAfter_nil]
  · intro e
    rw [serve_entity]
    simp only [mem_names_after]
  · refine nodup_names_finish ?_
    rw [entities_after_empty]
    exact nodup_firstsAfter _ _
  · show ((empty.after calls).relationships.edges.map Relationship.key).Nodup
    rw [edges_after_empty]
    exact nodup_firstsAfter _ _
  · intro name hname
    rw [← stubs_after_empty] at hname
    exact mem_endpoints.mp (mem_of_mem_firstsAfter hname)

end ClassDiagram.Draft
