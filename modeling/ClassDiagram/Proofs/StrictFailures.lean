import ClassDiagram.Proofs.Leaves
import ClassDiagram.Proofs.SuffixRule
import ClassDiagram.Proofs.UnknownTypes

/-!
# Strict failures are precise and stay where they are

Which declarations a strict run fails, with which name, and whom this concerns.

A declaration is resolved type by type in the order of `ClassDecl.required`, and each type
fails with its leftmost unresolvable leaf (`Scope.unresolved?_eq_find?`). So the name that
a failure gives is the first unresolvable leaf of all required types, taken together
(`findSome?_required_of_strict`). What is required is said once more by `ClassDecl.Requires`,
without the order. Results of methods, parameters that are stored and types that are only
made somewhere are not among it.

Failures are isolated because a declaration has two ways only to reach another one: the
table, which takes nothing but its name and its imports, and the memo, which is faithful.
The edges and failures that belong to a declaration can be told by its name
(`flatMap_edgesOf_filter`, `filterMap_failure?_filter`), and taking those of one
declaration out leaves what the outcomes of the others come to.
-/

namespace ClassDiagram

namespace ClassDecl

/-- The first leaf, in the order in which the required types are resolved and from left to
right inside each of them, that nothing is known about. -/
def firstUnresolvable? (s : Scope) (decl : ClassDecl) : Option String :=
  (decl.required.flatMap s.leaves).find? s.isUnresolvable

theorem firstUnresolvable?_isSome_iff {s : Scope} {decl : ClassDecl} :
    (decl.firstUnresolvable? s).isSome = true
      ↔ ∃ t, decl.Requires t ∧ ∃ leaf ∈ s.leaves t, s.isUnresolvable leaf = true := by
  unfold firstUnresolvable?
  rw [List.find?_isSome]
  constructor
  · rintro ⟨leaf, hleaf, hunresolvable⟩
    obtain ⟨t, ht, hmem⟩ := List.mem_flatMap.mp hleaf
    exact ⟨t, mem_required_iff.mp ht, leaf, hmem, hunresolvable⟩
  · rintro ⟨t, ht, leaf, hmem, hunresolvable⟩
    exact ⟨leaf, List.mem_flatMap.mpr ⟨t, mem_required_iff.mpr ht, hmem⟩, hunresolvable⟩

/-- In a strict scope the first required type to fail does so with the first unresolvable
leaf of them all. -/
theorem findSome?_required_of_strict {s : Scope} (hstrict : s.settings.strict = true)
    (decl : ClassDecl) :
    decl.required.findSome? (Answers.unresolved? s.resolve) = decl.firstUnresolvable? s := by
  unfold firstUnresolvable?
  rw [← List.findSome?_guard, findSome?_flatMap]
  refine congrArg (fun f => decl.required.findSome? f) (funext fun t => ?_)
  rw [Scope.unresolved?_eq_find? hstrict, List.findSome?_guard]

end ClassDecl

namespace Analysis

open ClassDecl

/-! ## What belongs to a declaration -/

section

variable {o : ClassDecl → Outcome} {decls : List ClassDecl}

/-- The edges that start at certain names are those of the declarations with these names. -/
theorem flatMap_edgesOf_filter (h : ∀ d ∈ decls, d.IsOwn (o d)) (p : String → Bool) :
    (decls.flatMap fun d => edgesOf (o d)).filter (fun r => p r.source)
      = (decls.filter fun d => p d.name).flatMap fun d => edgesOf (o d) := by
  induction decls with
  | nil => rfl
  | cons d rest ih =>
    have hrest := ih fun e he => h e (List.mem_cons_of_mem _ he)
    have hsource : ∀ r ∈ edgesOf (o d), p r.source = p d.name :=
      fun r hr => congrArg p (source_of_mem_edgesOf (h d List.mem_cons_self) hr)
    rw [List.flatMap_cons, List.filter_append, hrest, List.filter_congr hsource]
    cases hp : p d.name with
    | true =>
      rw [List.filter_cons_of_pos (p := fun d : ClassDecl => p d.name) hp, List.flatMap_cons,
        List.filter_true]
    | false =>
      rw [List.filter_cons_of_neg (p := fun d : ClassDecl => p d.name) (by simp [hp]),
        List.filter_false, List.nil_append]

/-- The failures against a name, or all others, are those of the declarations with this
name, or of all others. -/
theorem filterMap_failure?_filter (h : ∀ d ∈ decls, d.IsOwn (o d)) (name : String)
    (q : Bool → Bool) :
    (decls.filterMap fun d => failure? (o d)).filter (fun e => q (isAgainst name e))
      = (decls.filter fun d => q (d.name == name)).filterMap fun d => failure? (o d) := by
  induction decls with
  | nil => rfl
  | cons d rest ih =>
    have hrest := ih fun e he => h e (List.mem_cons_of_mem _ he)
    rw [List.filterMap_cons]
    cases hfailure : failure? (o d) with
    | none =>
      dsimp only
      rw [hrest, List.filter_cons]
      split
      · rw [List.filterMap_cons, hfailure]
      · rfl
    | some e =>
      have hagainst := isAgainst_of_isOwn (h d List.mem_cons_self) name hfailure
      dsimp only
      rw [List.filter_cons, List.filter_cons, hagainst, hrest]
      split
      · rw [List.filterMap_cons, hfailure]
      · rfl

end

/-! ## Replacing a declaration -/

/-- A declaration that is kept is kept where it stands, and so is one of its name in its
place; the others do not notice. -/
theorem kept_replace {before : List ClassDecl} (after : List ClassDecl) {d d' : ClassDecl}
    (hname : d'.name = d.name) (hkept : d.name ∉ before.map ClassDecl.name) :
    ∃ front back, kept (before ++ d :: after) = front ++ d :: back
      ∧ kept (before ++ d' :: after) = front ++ d' :: back := by
  have hnew : d.name ∉ (kept before).map ClassDecl.name :=
    fun hmem => hkept (mem_map_firstsAfter.mp hmem).1
  have hnew' : d'.name ∉ (kept before).map ClassDecl.name := by
    rw [hname]
    exact hnew
  refine ⟨kept before, _, kept_append_cons hnew after, ?_⟩
  rw [kept_append_cons hnew' after, hname]

/-- The table takes from a declaration its name and its imports. -/
theorem scopeOf_replace (settings : ResolverSettings) (front back : List ClassDecl)
    {d d' : ClassDecl} (hname : d'.name = d.name) (himports : d'.imports = d.imports) :
    scopeOf settings (front ++ d' :: back) = scopeOf settings (front ++ d :: back) := by
  have hnames : (front ++ d' :: back).map ClassDecl.name
      = (front ++ d :: back).map ClassDecl.name := by
    rw [List.map_append, List.map_append, List.map_cons, List.map_cons, hname]
  have hpaths : (front ++ d' :: back).flatMap ClassDecl.imports
      = (front ++ d :: back).flatMap ClassDecl.imports := by
    rw [List.flatMap_append, List.flatMap_append, List.flatMap_cons, List.flatMap_cons, himports]
  unfold scopeOf TypeTable.ofDeclarations
  rw [hnames, hpaths]

/-! ## Strict runs -/

theorem any_iff_isSome {α : Type} {p : α → Bool} {l : List α} {found : Option α}
    (h : l.filter p = found.toList) : l.any p = true ↔ found.isSome = true := by
  cases found with
  | none =>
    have hnone := List.filter_eq_nil_iff.mp h
    rw [List.any_eq_true]
    constructor
    · rintro ⟨a, ha, hp⟩
      exact absurd hp (hnone a ha)
    · intro hsome
      cases hsome
  | some a =>
    have ha : a ∈ l.filter p := h ▸ List.mem_cons_self
    obtain ⟨hmem, hp⟩ := List.mem_filter.mp ha
    exact iff_of_true (List.any_eq_true.mpr ⟨a, hmem, hp⟩) rfl

/-- A declaration that fails has no edges. -/
theorem edgesOf_eq_nil {o : Outcome} (h : (failure? o).isSome = true) : edgesOf o = [] := by
  cases o with
  | ok rs => cases h
  | error e => rfl

theorem failure?_outcomeFrom (answers : Answers) (d : ClassDecl) :
    failure? (outcomeFrom answers d)
      = (d.required.findSome? answers.unresolved?).map (.unresolvedType d.name) := by
  unfold outcomeFrom
  cases d.required.findSome? answers.unresolved? with
  | some name => rfl
  | none => rfl

section

variable (settings : ResolverSettings) {decls : List ClassDecl}

/-- What a run says about a declaration is what the plain answers say about it. -/
theorem ofValid_own (h : ∀ d ∈ decls, ∀ t ∈ d.types, t.Unambiguous) {d : ClassDecl}
    (hd : d ∈ kept decls) :
    (ofValid settings decls).diagram.relationshipsFrom d.name
        = edgesOf (outcomeFrom (scopeOf settings (kept decls)).resolve d)
      ∧ (ofValid settings decls).failures.filter (isAgainst d.name)
        = (failure? (outcomeFrom (scopeOf settings (kept decls)).resolve d)).toList := by
  have hown : ∀ e ∈ kept decls,
      e.IsOwn (outcomeFrom (scopeOf settings (kept decls)).resolve e) :=
    fun e _ => outcomeFrom_isOwn _ e
  have hone := filter_name_eq (nodup_kept decls) hd
  constructor
  · unfold Diagram.relationshipsFrom
    rw [ofValid_relationships_of_unambiguous settings h,
      flatMap_edgesOf_filter hown (fun source => source == d.name), hone, List.flatMap_singleton]
  · rw [ofValid_failures_of_unambiguous settings h]
    refine (filterMap_failure?_filter hown d.name id).trans ?_
    dsimp only [id]
    rw [hone, List.filterMap_cons, List.filterMap_nil]
    cases failure? (outcomeFrom (scopeOf settings (kept decls)).resolve d) <;> rfl

/-- **Isolation.** Replacing a kept declaration by another one of the same name and with the
same imports changes what belongs to it and nothing else. -/
theorem ofValid_replace {before after : List ClassDecl} {d d' : ClassDecl}
    (hname : d'.name = d.name) (himports : d'.imports = d.imports)
    (hkept : d.name ∉ before.map ClassDecl.name)
    (h : ∀ e ∈ before ++ d :: after, ∀ t ∈ e.types, t.Unambiguous)
    (h' : ∀ e ∈ before ++ d' :: after, ∀ t ∈ e.types, t.Unambiguous) :
    (ofValid settings (before ++ d' :: after)).diagram.relationships.filter
        (fun r => r.source != d.name)
      = (ofValid settings (before ++ d :: after)).diagram.relationships.filter
        (fun r => r.source != d.name)
    ∧ (ofValid settings (before ++ d' :: after)).failures.filter
        (fun e => !isAgainst d.name e)
      = (ofValid settings (before ++ d :: after)).failures.filter
        (fun e => !isAgainst d.name e) := by
  obtain ⟨front, back, hfirst, hsecond⟩ := kept_replace after hname hkept
  have hscope := scopeOf_replace settings front back hname himports
  -- with one scope for both runs, the two lists differ in the declaration that goes
  have hothers : (front ++ d' :: back).filter (fun e => e.name != d.name)
      = (front ++ d :: back).filter fun e => e.name != d.name := by
    rw [List.filter_append, List.filter_append, List.filter_cons, List.filter_cons, hname]
    simp
  have hown : ∀ (l : List ClassDecl), ∀ e ∈ l,
      e.IsOwn (outcomeFrom (scopeOf settings (front ++ d :: back)).resolve e) :=
    fun _ e _ => outcomeFrom_isOwn _ e
  rw [ofValid_relationships_of_unambiguous settings h,
    ofValid_relationships_of_unambiguous settings h',
    ofValid_failures_of_unambiguous settings h, ofValid_failures_of_unambiguous settings h',
    hfirst, hsecond, hscope]
  constructor
  · rw [flatMap_edgesOf_filter (hown _) (fun source => source != d.name),
      flatMap_edgesOf_filter (hown _) (fun source => source != d.name), hothers]
  · rw [filterMap_failure?_filter (hown _) d.name (fun b => !b),
      filterMap_failure?_filter (hown _) d.name (fun b => !b)]
    exact congrArg (List.filterMap _) hothers

end

/-- **Strict failures are precise and isolated.** Take well-formed declarations without
delimiters in their type names, and a strict run over them. It succeeds, and each kept
declaration that has an unresolvable leaf fails with the first one, in the order of the
input. A kept declaration has at most this one failure, and it has it exactly if some type
that it requires has an unresolvable leaf. It keeps its box in any case, and if it fails it
has no edge. And if another declaration takes the place of a kept one, well-formed, without
delimiters and with the same name and imports, the edges and failures of all others stay as
they are. -/
theorem run_strict_failures (settings : ResolverSettings) (decls : List ClassDecl)
    (hstrict : settings.strict = true) (hvalid : Validation.checkAll decls = .ok ())
    (hnames : ∀ d ∈ decls, ∀ t ∈ d.types, t.Unambiguous) :
    ∃ a : Analysis, run settings decls = .ok a
      ∧ a.failures = (kept decls).filterMap (fun d =>
          (d.firstUnresolvable? (scopeOf settings (kept decls))).map (.unresolvedType d.name))
      ∧ (∀ d ∈ kept decls,
          a.failures.filter (isAgainst d.name)
              = ((d.firstUnresolvable? (scopeOf settings (kept decls))).map
                  (AnalysisError.unresolvedType d.name)).toList
          ∧ (a.failures.any (isAgainst d.name) = true
              ↔ ∃ t, d.Requires t ∧ ∃ leaf ∈ (scopeOf settings (kept decls)).leaves t,
                  (scopeOf settings (kept decls)).isUnresolvable leaf = true)
          ∧ d.entity ∈ a.diagram.entities
          ∧ (a.failures.any (isAgainst d.name) = true → a.diagram.relationshipsFrom d.name = []))
      ∧ ∀ (before after : List ClassDecl) (d d' : ClassDecl), decls = before ++ d :: after →
          d.name ∉ before.map ClassDecl.name → d'.name = d.name → d'.imports = d.imports →
          Validation.checkDeclaration d' = .ok () → (∀ t ∈ d'.types, t.Unambiguous) →
          ∃ a' : Analysis, run settings (before ++ d' :: after) = .ok a'
            ∧ a'.diagram.relationships.filter (fun r => r.source != d.name)
              = a.diagram.relationships.filter (fun r => r.source != d.name)
            ∧ a'.failures.filter (fun e => !isAgainst d.name e)
              = a.failures.filter (fun e => !isAgainst d.name e) := by
  refine ⟨_, run_of_valid settings hvalid, ?_, fun d hd => ?_, ?_⟩
  · rw [ofValid_failures_of_unambiguous settings hnames]
    refine List.filterMap_congr fun d _ => ?_
    rw [failure?_outcomeFrom, findSome?_required_of_strict hstrict]
  · obtain ⟨hedges, hfailures⟩ := ofValid_own settings hnames hd
    have hfirst := failure?_outcomeFrom (scopeOf settings (kept decls)).resolve d
    rw [findSome?_required_of_strict hstrict] at hfirst
    rw [hedges, any_iff_isSome hfailures]
    refine ⟨by rw [hfailures, hfirst], ?_, ?_, edgesOf_eq_nil⟩
    · rw [hfirst, Option.isSome_map, firstUnresolvable?_isSome_iff]
    · rw [ofValid_entities]
      exact List.mem_append_left _ (List.mem_map_of_mem hd)
  · rintro before after d d' rfl hkept hname himports hvalid' hnames'
    rw [Validation.checkAll_eq_ok_iff] at hvalid
    have hall : ∀ {P : ClassDecl → Prop}, (∀ e ∈ before ++ d :: after, P e) → P d' →
        ∀ e ∈ before ++ d' :: after, P e := by
      intro P hP hd' e he
      rw [List.mem_append, List.mem_cons] at he
      rcases he with hbefore | rfl | hafter
      · exact hP e (List.mem_append_left _ hbefore)
      · exact hd'
      · exact hP e (List.mem_append_right _ (List.mem_cons_of_mem _ hafter))
    exact ⟨_, run_of_valid settings (Validation.checkAll_eq_ok_iff.mpr (hall hvalid hvalid')),
      ofValid_replace settings hname himports hkept hnames (hall hnames hnames')⟩

/-- A desk that keeps the keys of its rooms, by lists of tokens, and gets a lock. -/
def deskDecl : ClassDecl :=
  { name := "Desk", kind := .class,
    fields := [{ name := "keys",
                 type := .named "Map" [.named "List" [.plain "Token"], .plain "Room"] }],
    constructors := [{ name := "Desk", params := [⟨"lock", .plain "Lock"⟩],
                       body := { fieldAssignments := [⟨"lock", .parameter "lock"⟩] } }] }

/-- The desk and a room that knows it. -/
def reception : List ClassDecl :=
  [deskDecl, { name := "Room", kind := .class,
               fields := [{ name := "desk", type := .plain "Desk" }] }]

theorem reception_lookup (name : String) :
    (scopeOf { strict := true } reception).table.lookup name
      = TypeTable.resolveSuffix ["Desk", "Room"] name :=
  TypeTable.lookup_eq_resolveSuffix (TypeTable.firstIndexed_ofDeclarations _ _) name

/-- Of the desk's types the tokens are the first that nothing is known about. The lock is
stored, so it need not be known. -/
theorem reception_firstUnresolvable :
    deskDecl.firstUnresolvable? (scopeOf { strict := true } reception) = some "Token" := by
  have hopens : ∀ name ∈ ["Map", "List"],
      (scopeOf { strict := true } reception).opens name = true := by
    intro name hname
    rw [Scope.opens, reception_lookup]
    revert name
    decide
  have hends : ∀ name ∈ ["Token", "Room"],
      (scopeOf { strict := true } reception).opens name = false := by
    intro name hname
    rw [Scope.opens, reception_lookup]
    revert name
    decide
  have htoken : (scopeOf { strict := true } reception).isUnresolvable "Token" = true := by
    rw [Scope.isUnresolvable, reception_lookup]
    decide
  have hleaves : (scopeOf { strict := true } reception).leaves
      (.named "Map" [.named "List" [.plain "Token"], .plain "Room"]) = ["Token", "Room"] := by
    simp [Scope.leaves, Scope.sideLeaves, Scope.elementLeaves, TypeRef.plain, hopens, hends,
      show (scopeOf { strict := true } reception).isMap (Dotted.simpleName "Map") = true by decide,
      show (scopeOf { strict := true } reception).isMap (Dotted.simpleName "List") = false by
        decide]
  show List.find? _ (List.flatMap _ [TypeRef.named "Map" _]) = _
  rw [List.flatMap_singleton, hleaves, List.find?_cons_of_pos htoken]

/-- The desk fails on account of its tokens and has no edges. If it is emptied, the room
stays as it is. -/
theorem run_strict_failures_reception :
    ∃ a a' : Analysis, run { strict := true } reception = .ok a
      ∧ a.failures.filter (isAgainst "Desk") = [.unresolvedType "Desk" "Token"]
      ∧ a.diagram.relationshipsFrom "Desk" = []
      ∧ run { strict := true } ({ name := "Desk", kind := .class } :: reception.tail) = .ok a'
      ∧ a'.diagram.relationships.filter (fun r => r.source != "Desk")
        = a.diagram.relationships.filter (fun r => r.source != "Desk") := by
  obtain ⟨a, hrun, -, hown, hreplace⟩ :=
    run_strict_failures { strict := true } reception rfl rfl (by decide)
  obtain ⟨hfailure, -, -, hedges⟩ := hown deskDecl List.mem_cons_self
  have hfirst : deskDecl.firstUnresolvable? (scopeOf { strict := true } (kept reception))
      = some "Token" := reception_firstUnresolvable
  rw [hfirst] at hfailure
  obtain ⟨a', hrun', hothers, -⟩ := hreplace [] reception.tail deskDecl
    { name := "Desk", kind := .class } rfl (by decide) rfl rfl rfl (by decide)
  refine ⟨a, a', hrun, hfailure, hedges ?_, hrun', hothers⟩
  exact (any_iff_isSome hfailure).mpr rfl

end Analysis

end ClassDiagram
