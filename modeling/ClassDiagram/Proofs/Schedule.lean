import ClassDiagram.Proofs.AnalysisShape

/-!
# The order of the work

The declarations of a run are classified with one memo, and whoever comes first fills a
slot for all others. `ofSchedule` is the analysis in which they are taken up in some other
order and their outcomes are put back into the order of the input. Does it differ from
the run?

It does not, as long as types that are written alike resolve alike (`Coherent`): then
every memo on the way is faithful, and every declaration gets the outcome that the plain
answers give it. Names without delimiters make sure of this. But nothing else does, and a
well-formed name may be `List<Node>`: it is written like a list of nodes, shares a slot
with it, and is something else. The last section has two classes for which the order
matters on this account.

The exact line is drawn by `scheduleFree_iff`: the order does not matter if and only if
every declaration, after whichever others, gets the outcome that it gets alone. From right
to left the schedules are compared declaration by declaration. From left to right an
analysis has to give its outcomes away, and it does (`assemble_injective`), since each edge
and each failure names the declaration it belongs to.
-/

namespace ClassDiagram

/-! ## Types that are written alike -/

/-- `u` itself, its element, its arguments, and theirs. -/
inductive TypeRef.IsPart (u : TypeRef) : TypeRef → Prop
  | whole : IsPart u u
  | element {t : TypeRef} : IsPart u (.array t) → IsPart u t
  | argument {name : String} {args : List TypeRef} {a : TypeRef} :
      IsPart u (.named name args) → a ∈ args → IsPart u a

theorem TypeRef.Unambiguous.part {u t : TypeRef} (hu : u.Unambiguous) (h : u.IsPart t) :
    t.Unambiguous := by
  induction h with
  | whole => exact hu
  | element _ ih => exact ih.element
  | argument _ hmem ih => exact ih.argument hmem

/-- Among the parts of these types, those that are written alike resolve alike. -/
def Scope.Coherent (s : Scope) (types : List TypeRef) : Prop :=
  ∀ u ∈ types, ∀ u' ∈ types, ∀ t t' : TypeRef, u.IsPart t → u'.IsPart t' →
    t.signature = t'.signature → s.resolve t = s.resolve t'

/-- Types without delimiters in their names are determined by the way they are written. -/
theorem Scope.coherent_of_unambiguous (s : Scope) {types : List TypeRef}
    (h : ∀ t ∈ types, t.Unambiguous) : s.Coherent types := by
  intro u hu u' hu' t t' ht ht' hsignature
  rw [TypeRef.eq_of_signature_eq ((h u hu).part ht) ((h u' hu').part ht') hsignature]

/-- The parts of coherent types can share one memo. -/
def Stock.ofCoherent {s : Scope} {types : List TypeRef} (h : s.Coherent types) : Stock s where
  Holds t := ∃ u ∈ types, u.IsPart t
  element := fun ⟨u, hu, hpart⟩ => ⟨u, hu, hpart.element⟩
  argument := fun ⟨u, hu, hpart⟩ hmem => ⟨u, hu, hpart.argument hmem⟩
  agree := fun ⟨u, hu, ht⟩ ⟨u', hu', ht'⟩ hsignature => h u hu u' hu' _ _ ht ht' hsignature

namespace Analysis

open ClassDecl

/-! ## One declaration after others -/

/-- What becomes of a declaration if it comes after others, all with one memo. -/
def outcomeAfter (s : Scope) (before : List ClassDecl) (d : ClassDecl) : Outcome :=
  ((d.relationships (Resolver.remembering s)).run (classifyAll s before .empty).2).1

theorem classifyAll_append (s : Scope) (first rest : List ClassDecl) (m : Memo) :
    classifyAll s (first ++ rest) m
      = ((classifyAll s first m).1 ++ (classifyAll s rest (classifyAll s first m).2).1,
          (classifyAll s rest (classifyAll s first m).2).2) := by
  induction first generalizing m with
  | nil => rfl
  | cons d first ih =>
    rw [List.cons_append, classifyAll_cons, classifyAll_cons, ih]
    rfl

theorem length_classifyAll (s : Scope) (decls : List ClassDecl) (m : Memo) :
    (classifyAll s decls m).1.length = decls.length :=
  (classifyAll_isOwn s decls m).length_eq.symm

/-- Declarations that share a stock of types get the outcomes of the plain answers, and
leave a faithful memo. -/
theorem classifyAll_transparent {s : Scope} (stock : Stock s) {decls : List ClassDecl}
    (h : ∀ d ∈ decls, ∀ t ∈ d.types, stock.Holds t) :
    stock.Transparent (classifyAll s decls) (decls.map (outcomeFrom s.resolve)) := by
  induction decls with
  | nil => exact Stock.transparent_pure []
  | cons d rest ih =>
    have hd := relationships_transparent d stock (h d List.mem_cons_self)
    have hrest := ih fun e he => h e (List.mem_cons_of_mem _ he)
    unfold classifyAll at hrest ⊢
    rw [List.mapM_cons, List.map_cons]
    exact hd.bind (hrest.map _)

/-- There no declaration takes notice of those before it. -/
theorem outcomeAfter_of_stock {s : Scope} (stock : Stock s) {before : List ClassDecl}
    {d : ClassDecl} (h : ∀ e ∈ before ++ [d], ∀ t ∈ e.types, stock.Holds t) :
    outcomeAfter s before d = outcomeFrom s.resolve d := by
  have hbefore := classifyAll_transparent stock fun e he => h e (List.mem_append_left _ he)
  have hd := relationships_transparent d stock
    (h d (List.mem_append_right _ List.mem_cons_self))
  -- whatever those before `d` left behind, it is faithful
  obtain ⟨-, hfaithful⟩ := hbefore .empty stock.faithful_empty
  exact (hd _ hfaithful).1

theorem outcomeAfter_isOwn (s : Scope) (before : List ClassDecl) (d : ClassDecl) :
    d.IsOwn (outcomeAfter s before d) := by
  unfold outcomeAfter
  rw [relationships_run]
  exact outcomeFrom_isOwn _ d

/-! ## An analysis gives its outcomes away -/

/-- An outcome is its edges and its failure. -/
theorem outcome_ext {o o' : Outcome} (hedges : edgesOf o = edgesOf o')
    (hfailure : failure? o = failure? o') : o = o' := by
  cases o with
  | ok rs =>
    cases o' with
    | ok rs' => exact congrArg Except.ok hedges
    | error e => cases hfailure
  | error e =>
    cases o' with
    | ok rs' => cases hfailure
    | error e' => exact congrArg Except.error (Option.some.inj hfailure)

/-- Two ways to divide a list into elements that have a property and then elements that
do not are the same. -/
theorem append_inj_of_filter {α : Type} {p : α → Bool} {x x' y y' : List α}
    (h : x ++ y = x' ++ y') (hx : ∀ a ∈ x, p a = true) (hx' : ∀ a ∈ x', p a = true)
    (hy : ∀ a ∈ y, p a = false) (hy' : ∀ a ∈ y', p a = false) : x = x' ∧ y = y' := by
  -- both parts can be read off the list by a filter
  have hfilter : ∀ x y : List α, (∀ a ∈ x, p a = true) → (∀ a ∈ y, p a = false) →
      (x ++ y).filter p = x := by
    intro x y hx hy
    have hnone : y.filter p = [] :=
      List.filter_eq_nil_iff.mpr fun a ha hp => Bool.false_ne_true ((hy a ha).symm.trans hp)
    rw [List.filter_append, List.filter_eq_self.mpr hx, hnone, List.append_nil]
  have hfirst : x = x' := by
    rw [← hfilter x y hx hy, h, hfilter x' y' hx' hy']
  subst hfirst
  exact ⟨rfl, List.append_cancel_left h⟩

/-- Whether an error is reported against `name`. -/
def isAgainst (name : String) : AnalysisError → Bool
  | .unresolvedType entity _ => entity == name
  | _ => false

theorem isAgainst_of_isOwn {d : ClassDecl} {o : Outcome} (h : d.IsOwn o) (name : String)
    {e : AnalysisError} (he : failure? o = some e) : isAgainst name e = (d.name == name) := by
  cases o with
  | ok rs => cases he
  | error e' =>
    obtain ⟨typeName, rfl⟩ := h
    cases he
    rfl

/-- The failures in outcomes are reported against the declarations of the outcomes. -/
theorem not_isAgainst_of_isOwn {decls : List ClassDecl} {os : List Outcome} {name : String}
    (h : List.Forall₂ IsOwn decls os) (hname : name ∉ decls.map ClassDecl.name)
    {e : AnalysisError} (he : e ∈ os.filterMap failure?) : isAgainst name e = false := by
  induction h with
  | nil => cases he
  | @cons d o rest os hd _ ih =>
    rw [List.map_cons, List.mem_cons, not_or] at hname
    obtain ⟨o', ho', hfail⟩ := List.mem_filterMap.mp he
    rcases List.mem_cons.mp ho' with rfl | hmem
    · rw [isAgainst_of_isOwn hd name hfail, beq_eq_false_iff_ne]
      exact fun heq => hname.1 heq.symm
    · exact ih hname.2 (List.mem_filterMap.mpr ⟨o', hmem, hfail⟩)

theorem filterMap_failure?_cons (o : Outcome) (os : List Outcome) :
    (o :: os).filterMap failure? = (failure? o).toList ++ os.filterMap failure? := by
  cases o with
  | ok rs => rfl
  | error e => rfl

/-- Outcomes of declarations with different names can be told from the list of all their
edges and the list of all their failures. -/
theorem outcomes_inj {decls : List ClassDecl} {os os' : List Outcome}
    (h : List.Forall₂ IsOwn decls os) (h' : List.Forall₂ IsOwn decls os')
    (hnames : (decls.map ClassDecl.name).Nodup)
    (hedges : os.flatMap edgesOf = os'.flatMap edgesOf)
    (hfailures : os.filterMap failure? = os'.filterMap failure?) : os = os' := by
  induction h generalizing os' with
  | nil => cases h'; rfl
  | @cons d o rest os hd hrest ih =>
    cases h' with
    | @cons _ o' _ os' hd' hrest' =>
      rw [List.map_cons, List.nodup_cons] at hnames
      rw [List.flatMap_cons, List.flatMap_cons] at hedges
      rw [filterMap_failure?_cons, filterMap_failure?_cons] at hfailures
      -- what belongs to `d` stands in front, and nothing behind it does
      have hmine : ∀ {o : Outcome}, d.IsOwn o → ∀ r ∈ edgesOf o, (r.source == d.name) = true :=
        fun ho r hr => beq_iff_eq.mpr (source_of_mem_edgesOf ho hr)
      have hothers : ∀ {os : List Outcome}, List.Forall₂ IsOwn rest os →
          ∀ r ∈ os.flatMap edgesOf, (r.source == d.name) = false := by
        intro os hos r hr
        rw [beq_eq_false_iff_ne]
        exact fun heq => hnames.1 (heq ▸ source_mem_of_isOwn hos hr)
      have hagainst : ∀ {o : Outcome}, d.IsOwn o → ∀ e ∈ (failure? o).toList,
          isAgainst d.name e = true := by
        intro o ho e he
        rw [isAgainst_of_isOwn ho d.name (Option.mem_toList.mp he)]
        exact beq_self_eq_true _
      obtain ⟨hhead, htail⟩ := append_inj_of_filter hedges (hmine hd) (hmine hd')
        (hothers hrest) (hothers hrest')
      obtain ⟨hfail, hfails⟩ := append_inj_of_filter hfailures (hagainst hd) (hagainst hd')
        (fun e he => not_isAgainst_of_isOwn hrest hnames.1 he)
        (fun e he => not_isAgainst_of_isOwn hrest' hnames.1 he)
      have hfail? := congrArg List.head? hfail
      rw [Option.head?_toList, Option.head?_toList] at hfail?
      rw [outcome_ext hhead hfail?, ih hrest' hnames.2 htail hfails]

/-- **An analysis gives its outcomes away.** -/
theorem assemble_injective {kept : List ClassDecl} {duplicates : List String}
    {os os' : List Outcome} (h : List.Forall₂ IsOwn kept os)
    (h' : List.Forall₂ IsOwn kept os') (hnames : (kept.map ClassDecl.name).Nodup)
    (heq : assemble kept duplicates os = assemble kept duplicates os') : os = os' := by
  have hedges : (assemble kept duplicates os).diagram.relationships = os.flatMap edgesOf :=
    assemble_relationships h hnames
  rw [heq, assemble_relationships h' hnames] at hedges
  exact outcomes_inj h h' hnames hedges.symm (congrArg Analysis.failures heq)

/-! ## Schedules -/

/-- What becomes of a declaration if declarations are taken up in `order`; nothing if it
is not among them. -/
def outcomeIn (s : Scope) (order : List ClassDecl) (d : ClassDecl) : Outcome :=
  (((order.map ClassDecl.name).zip (classifyAll s order .empty).1).lookup d.name).getD (.ok [])

/-- The analysis in which the kept declarations are taken up in `order`, with one memo, and
their outcomes are put back into the order of the input. -/
def ofSchedule (settings : ResolverSettings) (decls order : List ClassDecl) : Analysis :=
  assemble (kept decls) ((dropped decls).map ClassDecl.name)
    ((kept decls).map (outcomeIn (scopeOf settings (kept decls)) order))

/-- The outcome of a declaration depends on those that come before it in the schedule. -/
theorem outcomeIn_eq (s : Scope) {before after : List ClassDecl} {d : ClassDecl}
    (hnames : ((before ++ d :: after).map ClassDecl.name).Nodup) :
    outcomeIn s (before ++ d :: after) d = outcomeAfter s before d := by
  rw [List.map_append, List.map_cons] at hnames
  have hlookup : (((before ++ d :: after).map ClassDecl.name).zip
      (classifyAll s (before ++ d :: after) .empty).1).lookup d.name
        = some (outcomeAfter s before d) := by
    rw [classifyAll_append, classifyAll_cons, List.map_append, List.map_cons,
      List.zip_append (by rw [List.length_map, length_classifyAll]), List.zip_cons_cons]
    refine List.lookup_eq_some_iff.mpr ⟨_, _, rfl, fun p hp => ?_⟩
    -- no declaration before `d` has its name
    rw [bne_iff_ne]
    exact fun heq => (List.nodup_append.mp hnames).2.2 _ (List.of_mem_zip hp).1 _
      List.mem_cons_self heq.symm
  rw [outcomeIn, hlookup]
  rfl

/-- Put back into the order in which they were found, outcomes are as they were found. -/
theorem map_lookup_zip {decls : List ClassDecl} {os : List Outcome} (o : Outcome)
    (hlength : os.length = decls.length) (hnames : (decls.map ClassDecl.name).Nodup) :
    decls.map (fun d => (((decls.map ClassDecl.name).zip os).lookup d.name).getD o) = os := by
  induction decls generalizing os with
  | nil => exact (List.length_eq_zero_iff.mp hlength).symm
  | cons d rest ih =>
    cases os with
    | nil => cases hlength
    | cons o' os =>
      rw [List.map_cons, List.nodup_cons] at hnames
      rw [List.map_cons, List.map_cons, List.zip_cons_cons, List.lookup_cons_self]
      refine congrArg (o' :: ·) (Eq.trans ?_ (ih (Nat.succ.inj hlength) hnames.2))
      refine List.map_congr_left fun e he => ?_
      have hne : e.name ≠ d.name := fun heq => hnames.1 (heq ▸ List.mem_map_of_mem he)
      rw [List.lookup_cons, beq_eq_false_iff_ne.mpr hne]

section

variable (settings : ResolverSettings) {decls order : List ClassDecl}

/-- In the order of the input, the schedule is that of the run. -/
theorem ofSchedule_kept : ofSchedule settings decls (kept decls) = ofValid settings decls := by
  rw [ofValid_eq, ofSchedule, outcomes]
  exact congrArg _ (map_lookup_zip _ (length_classifyAll _ _ _) (nodup_kept decls))

theorem nodup_names_of_perm (hperm : order.Perm (kept decls)) :
    (order.map ClassDecl.name).Nodup :=
  (hperm.map ClassDecl.name).nodup_iff.mpr (nodup_kept decls)

/-- Each kept declaration has its place in the schedule, and its outcome there is the one
after those before it. -/
theorem exists_outcomeIn_eq (s : Scope) (hperm : order.Perm (kept decls)) {d : ClassDecl}
    (hd : d ∈ kept decls) : ∃ before after, order = before ++ d :: after
      ∧ outcomeIn s order d = outcomeAfter s before d := by
  obtain ⟨before, after, rfl⟩ := List.append_of_mem (hperm.mem_iff.mpr hd)
  exact ⟨before, after, rfl, outcomeIn_eq s (nodup_names_of_perm hperm)⟩

theorem map_outcomeIn_isOwn (s : Scope) (hperm : order.Perm (kept decls)) :
    List.Forall₂ IsOwn (kept decls) ((kept decls).map (outcomeIn s order)) := by
  rw [List.forall₂_map_right_iff, List.forall₂_same]
  intro d hd
  obtain ⟨before, after, -, houtcome⟩ := exists_outcomeIn_eq s hperm hd
  rw [houtcome]
  exact outcomeAfter_isOwn s before d

/-- Two schedules give the same analysis if and only if they give every declaration the
same outcome. -/
theorem ofSchedule_eq_iff {order' : List ClassDecl} (hperm : order.Perm (kept decls))
    (hperm' : order'.Perm (kept decls)) :
    ofSchedule settings decls order = ofSchedule settings decls order'
      ↔ ∀ d ∈ kept decls, outcomeIn (scopeOf settings (kept decls)) order d
        = outcomeIn (scopeOf settings (kept decls)) order' d := by
  constructor
  · intro h
    exact List.map_inj_left.mp (assemble_injective (map_outcomeIn_isOwn _ hperm)
      (map_outcomeIn_isOwn _ hperm') (nodup_kept decls) h)
  · intro h
    unfold ofSchedule
    rw [List.map_congr_left h]

/-- Every schedule gives the analysis of the run. -/
def ScheduleFree (settings : ResolverSettings) (decls : List ClassDecl) : Prop :=
  ∀ order : List ClassDecl, order.Perm (kept decls) →
    run settings decls = .ok (ofSchedule settings decls order)

/-- **The exact line.** The order does not matter if and only if each declaration, after
whichever others, gets the outcome that it gets alone. -/
theorem scheduleFree_iff (h : Validation.checkAll decls = .ok ()) :
    ScheduleFree settings decls ↔ ∀ (before : List ClassDecl) (d : ClassDecl)
      (after : List ClassDecl), (before ++ d :: after).Perm (kept decls) →
        outcomeAfter (scopeOf settings (kept decls)) before d
          = outcomeAfter (scopeOf settings (kept decls)) [] d := by
  unfold ScheduleFree
  rw [run_of_valid settings h]
  constructor
  · intro hfree before d after hperm
    -- the schedule that takes `d` up first is a schedule too, and both give away what
    -- becomes of `d`
    have hfirst : ([] ++ d :: (before ++ after)).Perm (kept decls) :=
      List.perm_middle.symm.trans hperm
    have hsame : ofSchedule settings decls (before ++ d :: after)
        = ofSchedule settings decls ([] ++ d :: (before ++ after)) :=
      Except.ok.inj ((hfree _ hperm).symm.trans (hfree _ hfirst))
    have hd : d ∈ kept decls := hperm.mem_iff.mp (by simp)
    rw [← outcomeIn_eq _ (nodup_names_of_perm hperm), ← outcomeIn_eq _ (nodup_names_of_perm hfirst)]
    exact (ofSchedule_eq_iff settings hperm hfirst).mp hsame d hd
  · intro halone order hperm
    rw [← ofSchedule_kept settings]
    refine congrArg Except.ok ((ofSchedule_eq_iff settings (List.Perm.refl _) hperm).mpr ?_)
    intro d hd
    -- `d` has a place in either order, and in neither do those before it count
    obtain ⟨before, after, hsplit, houtcome⟩ := exists_outcomeIn_eq _ (List.Perm.refl _) hd
    obtain ⟨before', after', hsplit', houtcome'⟩ := exists_outcomeIn_eq _ hperm hd
    rw [houtcome, houtcome', halone before d after (by rw [← hsplit]),
      halone before' d after' (by rw [← hsplit']; exact hperm)]

/-- The order does not matter where types that are written alike resolve alike. -/
theorem scheduleFree_of_coherent (h : Validation.checkAll decls = .ok ())
    (hcoherent : (scopeOf settings (kept decls)).Coherent ((kept decls).flatMap (·.types))) :
    ScheduleFree settings decls := by
  rw [scheduleFree_iff settings h]
  intro before d after hperm
  -- one stock of types for the whole run
  have hholds : ∀ e ∈ before ++ [d], ∀ t ∈ e.types, (Stock.ofCoherent hcoherent).Holds t := by
    intro e he t ht
    have hmem : e ∈ before ++ d :: after := by
      rw [List.append_cons]
      exact List.mem_append_left _ he
    exact ⟨t, List.mem_flatMap.mpr ⟨e, hperm.mem_iff.mp hmem, ht⟩, .whole⟩
  rw [outcomeAfter_of_stock _ hholds,
    outcomeAfter_of_stock _ fun e he => hholds e (List.mem_append_right before he)]

end

/-- **When the order of the work does not matter.** For well-formed declarations, every
schedule gives the analysis of the run exactly when each declaration, after whichever
others, gets the outcome that it gets alone. This is so where types that are written alike
resolve alike, and in particular where no name in a type has a delimiter in it. -/
theorem scheduleFree_exactly (settings : ResolverSettings) (decls : List ClassDecl)
    (h : Validation.checkAll decls = .ok ()) :
    (ScheduleFree settings decls ↔ ∀ (before : List ClassDecl) (d : ClassDecl)
      (after : List ClassDecl), (before ++ d :: after).Perm (kept decls) →
        outcomeAfter (scopeOf settings (kept decls)) before d
          = outcomeAfter (scopeOf settings (kept decls)) [] d)
    ∧ ((scopeOf settings (kept decls)).Coherent ((kept decls).flatMap (·.types)) →
      ScheduleFree settings decls)
    ∧ ((∀ d ∈ kept decls, ∀ t ∈ d.types, t.Unambiguous) → ScheduleFree settings decls) := by
  refine ⟨scheduleFree_iff settings h, scheduleFree_of_coherent settings h, fun hnames => ?_⟩
  refine scheduleFree_of_coherent settings h (Scope.coherent_of_unambiguous _ fun t ht => ?_)
  obtain ⟨d, hd, hmem⟩ := List.mem_flatMap.mp ht
  exact hnames d hd t hmem

/-! ## Where it does matter -/

/-- A class whose instances hold a list of their like. -/
def nodeDecl : ClassDecl :=
  { name := "Node", kind := .class,
    fields := [{ name := "children", type := .named "List" [.plain "Node"] }] }

/-- A class with a field of a type that has the name `List<Node>`. -/
def panelDecl : ClassDecl :=
  { name := "Panel", kind := .class,
    fields := [{ name := "nodes", type := .plain "List<Node>" }] }

/-- Two classes that both hold a list of nodes can be scheduled in any way. -/
theorem scheduleFree_lists : ScheduleFree {} [nodeDecl, { nodeDecl with name := "Grove" }] :=
  (scheduleFree_exactly {} [nodeDecl, { nodeDecl with name := "Grove" }] rfl).2.2 (by decide)

/-- The scope of the two classes. -/
def forest : Scope :=
  scopeOf {} [panelDecl, nodeDecl]

theorem forest_lookup {name : String} (hpanel : name ≠ "Panel") (hnode : name ≠ "Node")
    (hplain : Dotted.isDotted name = false) : forest.table.lookup name = none := by
  have htable : forest.table = ⟨["Panel", "Node"],
      ((∅ : Std.HashMap String String).insertIfNew "Panel" "Panel").insertIfNew "Node" "Node",
      []⟩ := rfl
  rw [htable]
  simp [TypeTable.lookup, hpanel, hnode, hplain, hpanel.symm, hnode.symm]

/-- A list of nodes leads to nodes. -/
theorem forest_resolve_list :
    forest.resolve (.named "List" [.plain "Node"]) = .ok (.list "Node") := by
  have hlist : forest.role "List" = .wrapper .list false := by
    rw [Scope.role, forest_lookup (by decide) (by decide) (by decide)]
    rfl
  have hnode : forest.role "Node" = .leaf (.ok (.scalar "Node")) := by
    rw [Scope.role, TypeTable.lookup_of_contains rfl]
    rfl
  rw [Scope.resolve, hlist]
  show Except.map _ (forest.resolve (.named "Node" [])) = _
  rw [Scope.resolve, hnode]
  rfl

/-- A type with the name `List<Node>` is nothing that is known. -/
theorem forest_answers_name : forest.answers .empty (.plain "List<Node>") = .ok .foreign := by
  have hrole : forest.role "List<Node>" = .leaf (.ok .foreign) := by
    rw [Scope.role, forest_lookup (by decide) (by decide) (by decide)]
    rfl
  exact forest.answers_of_leaf hrole (by simp [Memo.empty])

/-- If the node comes first, it aggregates its children. -/
theorem outcomeAfter_node_first : outcomeAfter forest [] nodeDecl
    = .ok [⟨"Node", "Node", .aggregation, some .many, some "children"⟩] := by
  have htypes : ∀ e ∈ [nodeDecl], ∀ t ∈ e.types, t.Unambiguous := by decide
  have hanswers : ∀ t ∈ nodeDecl.types,
      forest.resolve t = (fun _ => .ok (.list "Node") : Answers) t := by
    intro t ht
    rw [List.mem_singleton.mp ht]
    exact forest_resolve_list
  rw [outcomeAfter_of_stock (Stock.unambiguous forest) htypes, outcomeFrom_congr _ hanswers]
  rfl

/-- If the panel comes first, its field fills the slot that the node's field then reads,
and the node has nothing to aggregate. -/
theorem outcomeAfter_node_second : outcomeAfter forest [panelDecl] nodeDecl = .ok [] := by
  -- the answer for its one type decides what becomes of the panel, so it asks for it
  have hasks : (panelDecl.relationships (Resolver.ofAnswers fun _ => .ok .foreign)).run
      ≠ (panelDecl.relationships (Resolver.ofAnswers fun _ => .ok (.list "Node"))).run := by
    intro h
    cases h
  -- and leaves the answer under the signature of the node's type
  have hslot : (classifyAll forest [panelDecl] .empty).2.slots[
      (TypeRef.named "List" [.plain "Node"]).signature]? = some (.ok .foreign) := by
    rw [← forest_answers_name]
    exact (relationships_consults forest panelDecl).slot_of_ne
      (fun u hu => List.mem_singleton.mp hu) hasks .empty
  have hanswers : ∀ t ∈ nodeDecl.types, forest.answers
      ((nodeDecl.relationships (Resolver.remembering forest)).run
        (classifyAll forest [panelDecl] .empty).2).2 t = (fun _ => .ok .foreign : Answers) t := by
    intro t ht
    rw [List.mem_singleton.mp ht]
    exact forest.answers_of_slot ((relationships_consults forest nodeDecl).grows _ _ _ hslot)
  rw [outcomeAfter, relationships_run, outcomeFrom_congr _ hanswers]
  rfl

/-- **The order can matter.** The two classes are well-formed. Taken up in the order of the
input, the node finds the slot of its field filled by the panel and aggregates nothing;
taken up the other way round it aggregates its children. -/
theorem ofSchedule_depends_on_order :
    Validation.checkAll [panelDecl, nodeDecl] = .ok ()
      ∧ [nodeDecl, panelDecl].Perm (kept [panelDecl, nodeDecl])
      ∧ run {} [panelDecl, nodeDecl]
        ≠ .ok (ofSchedule {} [panelDecl, nodeDecl] [nodeDecl, panelDecl]) := by
  have hperm : [nodeDecl, panelDecl].Perm (kept [panelDecl, nodeDecl]) := .swap _ _ _
  refine ⟨rfl, hperm, fun hrun => ?_⟩
  rw [run_of_valid {} rfl, ← ofSchedule_kept] at hrun
  have hsame := (ofSchedule_eq_iff {} (List.Perm.refl _) hperm).mp (Except.ok.inj hrun)
    nodeDecl (hperm.mem_iff.mp List.mem_cons_self)
  have hsecond : outcomeIn forest ([panelDecl] ++ nodeDecl :: []) nodeDecl = .ok [] :=
    (outcomeIn_eq forest (by decide)).trans outcomeAfter_node_second
  have hfirst : outcomeIn forest ([] ++ nodeDecl :: [panelDecl]) nodeDecl = .ok _ :=
    (outcomeIn_eq forest (by decide)).trans outcomeAfter_node_first
  cases hsecond.symm.trans (hsame.trans hfirst)

end Analysis

end ClassDiagram
