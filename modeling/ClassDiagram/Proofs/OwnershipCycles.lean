import ClassDiagram.Proofs.Drafting
import ClassDiagram.Proofs.NameOrder
import ClassDiagram.Proofs.Reachability

/-!
# Circles of ownership

The groups that a diagram reports are the classes of names that own each other, as far as
they have more than one member (`ownershipCycles_exact`).

In a closed diagram the search from a name is exact, so the group of a name holds the names
in a circle with it (`mem_group_iff`). Names in a circle have the same group (`group_eq`),
and of its members only the least one comes first in it, so one name stands for each group
and no group is found twice (`eq_of_group_eq`). Groups and the list of them are sorted, and
sorting forgets the order of the diagram: nothing is left of it but which names there are
and which own which (`ownershipCycles_congr`).
-/

namespace ClassDiagram

namespace Diagram

/-- A composition or aggregation of the diagram leads from `a` to `b`. -/
def Owns (d : Diagram) (a b : String) : Prop :=
  ∃ r ∈ d.relationships,
    (r.kind = .composition ∨ r.kind = .aggregation) ∧ r.source = a ∧ r.target = b

/-- Each of two names is reached from the other one along the edges of ownership. -/
def OwnEachOther (d : Diagram) (a b : String) : Prop :=
  Relation.ReflTransGen d.Owns a b ∧ Relation.ReflTransGen d.Owns b a

def names (d : Diagram) : List String :=
  d.entities.map Entity.name

/-- The names that are found to be in a circle with `n`, in ascending order. -/
def group (d : Diagram) (n : String) : List String :=
  (d.names.filter fun o => (Reach.closure d.ownershipEdges n).contains o
    && (Reach.closure d.ownershipEdges o).contains n).mergeSort nameLe

/-- A name stands for its group if it comes first in it and is not alone. -/
def leads (d : Diagram) (n : String) : Bool :=
  decide (1 < (d.group n).length) && (d.group n).head? == some n

theorem ownershipCycles_eq (d : Diagram) :
    d.ownershipCycles = ((d.names.filter d.leads).map d.group).mergeSort namesLe := by
  -- the searches are shared between the groups, which makes no difference to what they find
  have hgroups : ((d.names.map fun n => (n, Reach.closure d.ownershipEdges n)).map
      fun p => (((d.names.map fun n => (n, Reach.closure d.ownershipEdges n)).filter
        fun q => p.2.contains q.1 && q.2.contains p.1).map (·.1)).mergeSort nameLe)
      = d.names.map d.group := by
    rw [List.map_map]
    refine List.map_congr_left fun n _ => ?_
    show List.mergeSort (List.map _ (List.filter _ _)) nameLe = d.group n
    rw [List.filter_map, List.map_map]
    exact congrArg (List.mergeSort · nameLe) (List.map_id _)
  have hzip : d.names.zip (d.names.map d.group) = d.names.map fun n => (n, d.group n) := by
    have h : (d.names.map id).zip (d.names.map d.group) = d.names.map fun n => (id n, d.group n) :=
      List.zip_map'
    rwa [List.map_id] at h
  calc d.ownershipCycles
      = (((d.names.zip (d.names.map d.group)).filter fun p =>
          decide (1 < p.2.length) && p.2.head? == some p.1).map (·.2)).mergeSort namesLe := by
        rw [← hgroups]
        rfl
    _ = ((d.names.filter d.leads).map d.group).mergeSort namesLe := by
        rw [hzip, List.filter_map, List.map_map]
        rfl

/-! ## The group of a name -/

/-- In a closed diagram every relationship is an edge of the graph. -/
theorem edges_of_isClosed {d : Diagram} (h : d.isClosed = true) : d.edges = d.relationships := by
  unfold edges
  rw [List.filter_eq_self]
  exact List.all_eq_true.mp h

/-- An ownership edge joins two names exactly when the first owns the second. -/
theorem joins_ownershipEdges_iff {d : Diagram} (h : d.isClosed = true) {a b : String} :
    Reach.Joins d.ownershipEdges a b ↔ d.Owns a b := by
  have hkind : ∀ k : RelationshipKind,
      k.isOwnership = true ↔ k = .composition ∨ k = .aggregation := by
    intro k
    cases k <;> decide
  unfold Reach.Joins ownershipEdges
  rw [edges_of_isClosed h, List.mem_map]
  constructor
  · intro hab
    obtain ⟨r, hr, hends⟩ := hab
    obtain ⟨hmem, howns⟩ := List.mem_filter.mp hr
    rw [Prod.mk.injEq] at hends
    exact ⟨r, hmem, (hkind r.kind).mp howns, hends⟩
  · intro hab
    obtain ⟨r, hmem, howns, rfl, rfl⟩ := hab
    exact ⟨r, List.mem_filter.mpr ⟨hmem, (hkind r.kind).mpr howns⟩, rfl⟩

/-- The closure of a name holds exactly the names that are reached from it by ownership. -/
theorem contains_closure_iff {d : Diagram} (h : d.isClosed = true) {a b : String} :
    (Reach.closure d.ownershipEdges a).contains b = true
      ↔ Relation.ReflTransGen d.Owns a b := by
  have hsame : Reach.Joins d.ownershipEdges = d.Owns := by
    funext x y
    exact propext (joins_ownershipEdges_iff h)
  rw [Std.HashSet.contains_iff_mem, Reach.mem_closure_iff, hsame]

section

variable {d : Diagram}

/-- Owning each other holds both ways. -/
theorem OwnEachOther.symm {a b : String} (h : d.OwnEachOther a b) : d.OwnEachOther b a :=
  ⟨h.2, h.1⟩

/-- Owning each other is carried along. -/
theorem OwnEachOther.trans {a b c : String} (h : d.OwnEachOther a b) (h' : d.OwnEachOther b c) :
    d.OwnEachOther a c :=
  ⟨h.1.trans h'.1, h'.2.trans h.2⟩

/-- Different names that own each other are both in the diagram. -/
theorem OwnEachOther.mem_names (hclosed : d.isClosed = true) {a b : String} (hne : a ≠ b)
    (h : d.OwnEachOther a b) : a ∈ d.names := by
  rcases Relation.ReflTransGen.cases_head h.1 with heq | ⟨c, hstep, -⟩
  · exact absurd heq hne
  · obtain ⟨r, hr, -, rfl, -⟩ := hstep
    have hends := List.all_eq_true.mp hclosed r hr
    obtain ⟨e, he, hname⟩ := List.any_eq_true.mp (Bool.and_eq_true_iff.mp hends).1
    rw [← beq_iff_eq.mp hname]
    exact List.mem_map_of_mem he

/-- The test by which the members of a group are found. -/
theorem inCircle_iff (hclosed : d.isClosed = true) {a b : String} :
    ((Reach.closure d.ownershipEdges a).contains b
      && (Reach.closure d.ownershipEdges b).contains a) = true ↔ d.OwnEachOther a b := by
  rw [Bool.and_eq_true_iff, contains_closure_iff hclosed, contains_closure_iff hclosed]
  rfl

/-- The group of a name holds the names that it owns and is owned by. -/
theorem mem_group_iff (hclosed : d.isClosed = true) {n o : String} :
    o ∈ d.group n ↔ o ∈ d.names ∧ d.OwnEachOther n o := by
  unfold group
  rw [(List.mergeSort_perm _ _).mem_iff, List.mem_filter, inCircle_iff hclosed]

/-- Names that own each other have one group. -/
theorem group_eq (hclosed : d.isClosed = true) {a b : String} (h : d.OwnEachOther a b) :
    d.group a = d.group b := by
  unfold group
  refine congrArg (List.mergeSort · nameLe) (List.filter_congr fun o _ => ?_)
  rw [Bool.eq_iff_iff, inCircle_iff hclosed, inCircle_iff hclosed]
  exact ⟨fun ho => h.symm.trans ho, fun ho => h.trans ho⟩

/-! ## The groups reported -/

/-- A name leads its group when the group has another member and the name comes first in it. -/
theorem leads_iff {n : String} :
    d.leads n = true ↔ 1 < (d.group n).length ∧ (d.group n).head? = some n := by
  unfold leads
  rw [Bool.and_eq_true_iff, decide_eq_true_iff, beq_iff_eq]

/-- The groups reported are those of the names that lead one. -/
theorem mem_ownershipCycles_iff {g : List String} :
    g ∈ d.ownershipCycles ↔ ∃ n ∈ d.names, d.leads n = true ∧ d.group n = g := by
  rw [ownershipCycles_eq, (List.mergeSort_perm _ _).mem_iff, List.mem_map]
  simp only [List.mem_filter, and_assoc]

/-- A group has only one leader. -/
theorem eq_of_group_eq {n n' : String} (hn : d.leads n = true) (hn' : d.leads n' = true)
    (h : d.group n = d.group n') : n = n' := by
  have hhead := (leads_iff.mp hn).2
  rw [h, (leads_iff.mp hn').2] at hhead
  exact (Option.some.inj hhead).symm

/-- Groups with a common member are one group. -/
theorem eq_of_mem_of_mem (hclosed : d.isClosed = true) {g g' : List String} {a : String}
    (hg : g ∈ d.ownershipCycles) (hg' : g' ∈ d.ownershipCycles) (ha : a ∈ g) (ha' : a ∈ g') :
    g = g' := by
  obtain ⟨n, -, -, rfl⟩ := mem_ownershipCycles_iff.mp hg
  obtain ⟨n', -, -, rfl⟩ := mem_ownershipCycles_iff.mp hg'
  have hboth : d.OwnEachOther n n' :=
    ((mem_group_iff hclosed).mp ha).2.trans ((mem_group_iff hclosed).mp ha').2.symm
  exact group_eq hclosed hboth

/-- Two names stand in one reported group exactly when they own each other. -/
theorem exists_group_iff (hclosed : d.isClosed = true) {a b : String} (hne : a ≠ b) :
    (∃ g ∈ d.ownershipCycles, a ∈ g ∧ b ∈ g) ↔ d.OwnEachOther a b := by
  constructor
  · intro h
    obtain ⟨g, hg, ha, hb⟩ := h
    obtain ⟨n, -, -, rfl⟩ := mem_ownershipCycles_iff.mp hg
    exact ((mem_group_iff hclosed).mp ha).2.symm.trans ((mem_group_iff hclosed).mp hb).2
  · intro h
    have ha : a ∈ d.group a :=
      (mem_group_iff hclosed).mpr ⟨h.mem_names hclosed hne, .refl, .refl⟩
    have hb : b ∈ d.group a :=
      (mem_group_iff hclosed).mpr ⟨h.symm.mem_names hclosed hne.symm, h⟩
    -- the first member of the group of `a` stands for it
    cases hgroup : d.group a with
    | nil =>
      rw [hgroup] at ha
      cases ha
    | cons first rest =>
      have hfirst : first ∈ d.group a := by
        rw [hgroup]
        exact List.mem_cons_self
      obtain ⟨hmem, hcircle⟩ := (mem_group_iff hclosed).mp hfirst
      have hsame : d.group first = first :: rest := by
        rw [← group_eq hclosed hcircle, hgroup]
      have htwo : 1 < (first :: rest).length := by
        rw [hgroup] at ha hb
        cases rest with
        | nil => exact absurd ((List.mem_singleton.mp ha).trans (List.mem_singleton.mp hb).symm) hne
        | cons second rest => simp
      refine ⟨d.group a, mem_ownershipCycles_iff.mpr ⟨first, hmem, ?_, ?_⟩, ha, hb⟩
      · rw [leads_iff, hsame]
        exact ⟨htwo, rfl⟩
      · rw [hsame, hgroup]

/-- A group has at least two members, which ascend. -/
theorem pairwise_of_mem (hnames : d.names.Nodup) {g : List String}
    (hg : g ∈ d.ownershipCycles) : 2 ≤ g.length ∧ g.Pairwise NameBefore := by
  obtain ⟨n, -, hleads, rfl⟩ := mem_ownershipCycles_iff.mp hg
  exact ⟨(leads_iff.mp hleads).1, pairwise_mergeSort_nameLe (hnames.filter _)⟩

theorem pairwise_ownershipCycles (hnames : d.names.Nodup) :
    d.ownershipCycles.Pairwise (List.Lex NameBefore) := by
  have hdistinct : ((d.names.filter d.leads).map d.group).Nodup := by
    refine List.pairwise_map.mpr ((hnames.filter d.leads).imp_of_mem ?_)
    intro n n' hn hn' hne heq
    exact hne (eq_of_group_eq (List.mem_filter.mp hn).2 (List.mem_filter.mp hn').2 heq)
  rw [ownershipCycles_eq]
  exact pairwise_mergeSort_namesLe hdistinct

/-- Nothing counts but which names there are and which of them own which. -/
theorem ownershipCycles_congr {d' : Diagram} (hclosed : d.isClosed = true)
    (hclosed' : d'.isClosed = true) (hnames : d.names.Perm d'.names)
    (howns : ∀ a b, d.Owns a b ↔ d'.Owns a b) : d.ownershipCycles = d'.ownershipCycles := by
  have hcircle : ∀ a b, d.OwnEachOther a b ↔ d'.OwnEachOther a b := by
    have hsame : d.Owns = d'.Owns := by
      funext a b
      exact propext (howns a b)
    intro a b
    unfold OwnEachOther
    rw [hsame]
  have hgroup : d.group = d'.group := by
    funext n
    refine sortsUniquely_nameLe.mergeSort_eq ?_
    have hfilter : ∀ o ∈ d.names, ((Reach.closure d.ownershipEdges n).contains o
          && (Reach.closure d.ownershipEdges o).contains n)
        = ((Reach.closure d'.ownershipEdges n).contains o
          && (Reach.closure d'.ownershipEdges o).contains n) := by
      intro o _
      rw [Bool.eq_iff_iff, inCircle_iff hclosed, inCircle_iff hclosed']
      exact hcircle n o
    rw [List.filter_congr hfilter]
    exact hnames.filter _
  have hleads : d.leads = d'.leads := by
    funext n
    unfold leads
    rw [hgroup]
  rw [ownershipCycles_eq, ownershipCycles_eq, hgroup, hleads]
  exact sortsUniquely_namesLe.mergeSort_eq ((hnames.filter _).map _)

end

end Diagram

namespace Draft

/-- For every relationship that was drawn, one with its ends and its kind was kept. -/
theorem exists_kept {calls : List Call} {r : Relationship} (hr : r ∈ drawn calls) :
    ∃ r' ∈ (empty.after calls).relationships.edges,
      r'.source = r.source ∧ r'.target = r.target ∧ r'.kind = r.kind := by
  have hkey : r.key ∈ (empty.after calls).relationships.edges.map Relationship.key := by
    rw [edges_after_empty]
    exact mem_map_firstsAfter.mpr ⟨List.mem_map_of_mem hr, List.not_mem_nil⟩
  obtain ⟨r', hr', heq⟩ := List.mem_map.mp hkey
  exact ⟨r', hr', congrArg RelationshipKey.source heq, congrArg RelationshipKey.target heq,
    congrArg RelationshipKey.kind heq⟩

theorem mem_drawn_of_kept {calls : List Call} {r : Relationship}
    (hr : r ∈ (empty.after calls).relationships.edges) : r ∈ drawn calls := by
  rw [edges_after_empty] at hr
  exact mem_of_mem_firstsAfter hr

/-- The edges of ownership after calls are those that were drawn. -/
theorem owns_finish_iff {calls : List Call} {a b : String} :
    (empty.after calls).finish.Owns a b ↔ ∃ r ∈ drawn calls,
      (r.kind = .composition ∨ r.kind = .aggregation) ∧ r.source = a ∧ r.target = b := by
  constructor
  · intro h
    obtain ⟨r, hr, hrest⟩ := h
    exact ⟨r, mem_drawn_of_kept hr, hrest⟩
  · intro h
    obtain ⟨r, hr, hrest⟩ := h
    obtain ⟨r', hr', hsource, htarget, hkind⟩ := exists_kept hr
    rw [← hsource, ← htarget, ← hkind] at hrest
    exact ⟨r', hr', hrest⟩

/-- The names of a finished draft are those of the offered entities and the ends of the drawn
edges. -/
theorem mem_names_finish_after {calls : List Call} {name : String} :
    name ∈ (empty.after calls).finish.names
      ↔ name ∈ (offered calls).map Entity.name ∨ name ∈ endpoints (drawn calls) := by
  unfold Diagram.names
  rw [mem_names_finish, mem_names_after, mem_endpoints, mem_endpoints]
  refine or_congr_right ⟨?_, ?_⟩
  · intro h
    obtain ⟨r, hr, hend⟩ := h
    exact ⟨r, mem_drawn_of_kept hr, hend⟩
  · intro h
    obtain ⟨r, hr, hend⟩ := h
    obtain ⟨r', hr', hsource, htarget, -⟩ := exists_kept hr
    rw [← hsource, ← htarget] at hend
    exact ⟨r', hr', hend⟩

theorem nodup_names_finish_after (calls : List Call) :
    (empty.after calls).finish.names.Nodup := by
  refine nodup_names_finish ?_
  rw [entities_after_empty]
  exact nodup_firstsAfter _ _

theorem ownershipCycles_perm {calls calls' : List Call}
    (hoffered : (offered calls).Perm (offered calls'))
    (hdrawn : (drawn calls).Perm (drawn calls')) :
    (empty.after calls).finish.ownershipCycles = (empty.after calls').finish.ownershipCycles := by
  refine Diagram.ownershipCycles_congr (finish_isClosed _) (finish_isClosed _) ?_ ?_
  · refine (List.perm_ext_iff_of_nodup (nodup_names_finish_after calls)
      (nodup_names_finish_after calls')).mpr fun name => ?_
    rw [mem_names_finish_after, mem_names_finish_after, (hoffered.map _).mem_iff]
    refine or_congr_right ?_
    rw [mem_endpoints, mem_endpoints]
    simp only [hdrawn.mem_iff]
  · intro a b
    rw [owns_finish_iff, owns_finish_iff]
    simp only [hdrawn.mem_iff]

/-- **Circles of ownership are found exactly.** Whatever calls made the diagram, two
different names are in one group if and only if each is reached from the other through
compositions and aggregations of the diagram. Every group has at least two members, which
ascend strictly by their UTF-8 bytes; no name is in two groups; and the groups ascend
strictly as well. Calls that offer the same entities and draw the same relationships in
another order end with the same groups. -/
theorem ownershipCycles_exact (calls : List Call) :
    (∀ a b : String, a ≠ b →
      ((∃ g ∈ (empty.after calls).finish.ownershipCycles, a ∈ g ∧ b ∈ g)
        ↔ Relation.ReflTransGen (empty.after calls).finish.Owns a b
          ∧ Relation.ReflTransGen (empty.after calls).finish.Owns b a))
    ∧ (∀ g ∈ (empty.after calls).finish.ownershipCycles,
        2 ≤ g.length ∧ g.Pairwise NameBefore)
    ∧ (∀ g ∈ (empty.after calls).finish.ownershipCycles,
        ∀ g' ∈ (empty.after calls).finish.ownershipCycles, ∀ a ∈ g, a ∈ g' → g = g')
    ∧ (empty.after calls).finish.ownershipCycles.Pairwise (List.Lex NameBefore)
    ∧ ∀ calls' : List Call, (offered calls).Perm (offered calls') →
        (drawn calls).Perm (drawn calls') →
        (empty.after calls).finish.ownershipCycles
          = (empty.after calls').finish.ownershipCycles := by
  have hclosed := finish_isClosed (empty.after calls)
  have hnames := nodup_names_finish_after calls
  refine ⟨fun a b hne => Diagram.exists_group_iff hclosed hne,
    fun g hg => Diagram.pairwise_of_mem hnames hg, ?_,
    Diagram.pairwise_ownershipCycles hnames, fun calls' => ownershipCycles_perm⟩
  intro g hg g' hg' a ha ha'
  exact Diagram.eq_of_mem_of_mem hclosed hg hg' ha ha'

/-- A hub that is composed of a room, which holds hubs and knows a lamp that knows it. -/
def hubCalls : List Call :=
  [.relationships [⟨"Hub", "Room", .composition, some .one, some "room"⟩,
    ⟨"Room", "Lamp", .association, some .one, some "lamp"⟩,
    ⟨"Lamp", "Room", .association, some .one, some "room"⟩],
   .entity (.stub "Room"),
   .relationships [⟨"Room", "Hub", .aggregation, some .many, some "hubs"⟩]]

/-- The hub and the room own each other. The lamp only knows the room, so it is in no group
with it; and it makes no difference if the calls are made the other way round. -/
theorem ownershipCycles_exact_hub :
    (∃ g ∈ (empty.after hubCalls).finish.ownershipCycles, "Hub" ∈ g ∧ "Room" ∈ g)
    ∧ ¬(∃ g ∈ (empty.after hubCalls).finish.ownershipCycles, "Lamp" ∈ g ∧ "Room" ∈ g)
    ∧ (empty.after hubCalls).finish.ownershipCycles
      = (empty.after hubCalls.reverse).finish.ownershipCycles := by
  obtain ⟨hgroups, -, -, -, horder⟩ := ownershipCycles_exact hubCalls
  refine ⟨(hgroups "Hub" "Room" (by decide)).mpr ⟨.single ?_, .single ?_⟩, ?_,
    horder hubCalls.reverse (by decide) (by decide)⟩
  · exact owns_finish_iff.mpr ⟨⟨"Hub", "Room", .composition, some .one, some "room"⟩, by decide⟩
  · exact owns_finish_iff.mpr ⟨⟨"Room", "Hub", .aggregation, some .many, some "hubs"⟩, by decide⟩
  · rw [hgroups "Lamp" "Room" (by decide)]
    intro h
    rcases h.1.cases_head with heq | ⟨b, hstep, -⟩
    · exact absurd heq (by decide)
    · obtain ⟨r, hr, hkind, hsource, -⟩ := owns_finish_iff.mp hstep
      revert r
      decide

end Draft

end ClassDiagram
