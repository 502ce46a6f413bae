import ClassDiagram.Proofs.Classification
import Mathlib.Data.List.Forall2

/-!
# The shape of an analysis

What a run makes of well-formed declarations, in full: which declarations it keeps, what
it reports about the others, and how the outcomes of the kept ones become a diagram.

Three deduplications meet here: of declarations by name, of the edges of one declaration
and of all edges of the diagram. The last one never drops anything. An outcome is about
its own declaration (`ClassDecl.IsOwn`), so edges of different declarations start at
different names and cannot share a key (`nodup_keys_of_isOwn`). Hence the relationships
of the diagram are the outcomes, one after the other (`assemble_relationships`), and
`run_shape` puts all of it together.

A run that asks whether it is cancelled comes to one of three things: the complaint about a
malformed declaration (`runObserving_of_malformed`), being cancelled
(`runObserving_of_cancelled`), or the analysis that it makes when nobody is asked
(`runObserving_of_calm`). Nothing lies between the last two, since being cancelled is the only
fatal outcome of a declaration (`eq_cancelled_of_isFatal`).
-/

namespace ClassDiagram.Analysis

open ClassDecl

/-! ## A run without questions -/

/-- Classifies declarations one after the other, all with one memo. -/
def classifyAll (s : Scope) (decls : List ClassDecl) :
    Remembering (List (Except AnalysisError (List Relationship))) :=
  decls.mapM fun d => (d.relationships (Resolver.remembering s)).run

/-- Splits outcomes into the edges found and the errors met, each in order. -/
def assemble (kept : List ClassDecl) (duplicates : List String)
    (outcomes : List (Except AnalysisError (List Relationship))) : Analysis :=
  let edges := outcomes.flatMap fun | .ok rs => rs | .error _ => []
  let failures := outcomes.filterMap fun | .ok _ => none | .error e => some e
  let draft : Draft := ⟨kept.map (·.entity), .empty⟩
  ⟨(draft.addRelationships edges).finish, failures, duplicates⟩

/-- The analysis of well-formed declarations, when nothing cancels it. -/
def ofValid (settings : ResolverSettings) (decls : List ClassDecl) : Analysis :=
  let (kept, duplicates) := dedupe decls
  let (outcomes, _) := (classifyAll (scopeOf settings kept) kept).run .empty
  assemble kept duplicates outcomes

/-- How often a run asks whether it is cancelled. -/
def checkCount (decls : List ClassDecl) : Nat :=
  (dedupe decls).1.length + 1

/-! ## Outcomes -/

/-- What classifying one declaration comes to. -/
abbrev Outcome := Except AnalysisError (List Relationship)

/-- The edges in an outcome. -/
def edgesOf : Outcome → List Relationship
  | .ok rs => rs
  | .error _ => []

/-- The failure in an outcome. -/
def failure? : Outcome → Option AnalysisError
  | .ok _ => none
  | .error e => some e

/-- One declaration after the other, each with the memo that the one before it left. -/
theorem classifyAll_cons (s : Scope) (d : ClassDecl) (rest : List ClassDecl) (m : Memo) :
    classifyAll s (d :: rest) m
      = (((d.relationships (Resolver.remembering s)).run m).1
            :: (classifyAll s rest ((d.relationships (Resolver.remembering s)).run m).2).1,
          (classifyAll s rest ((d.relationships (Resolver.remembering s)).run m).2).2) := by
  unfold classifyAll
  rw [List.mapM_cons]
  rfl

/-- Every outcome is about its own declaration, whatever the memo holds. -/
theorem classifyAll_isOwn (s : Scope) (decls : List ClassDecl) (m : Memo) :
    List.Forall₂ IsOwn decls (classifyAll s decls m).1 := by
  induction decls generalizing m with
  | nil => exact .nil
  | cons d rest ih =>
    rw [classifyAll_cons]
    refine .cons ?_ (ih _)
    rw [relationships_run]
    exact outcomeFrom_isOwn _ d

/-- Every edge of an outcome starts at the declaration the outcome belongs to. -/
theorem source_of_mem_edgesOf {d : ClassDecl} {o : Outcome}
    (h : d.IsOwn o) {r : Relationship} (hr : r ∈ edgesOf o) : r.source = d.name := by
  cases o with
  | ok rs => exact h.2 r hr
  | error e => cases hr

/-- The edges in outcomes start at the declarations that the outcomes are about. -/
theorem source_mem_of_isOwn {decls : List ClassDecl}
    {outcomes : List Outcome}
    (h : List.Forall₂ IsOwn decls outcomes) {r : Relationship}
    (hr : r ∈ outcomes.flatMap edgesOf) : r.source ∈ decls.map ClassDecl.name := by
  induction h with
  | nil => cases hr
  | cons hd _ ih =>
    rw [List.flatMap_cons, List.mem_append] at hr
    rw [List.map_cons, List.mem_cons]
    rcases hr with hfirst | hrest
    · exact .inl (source_of_mem_edgesOf hd hfirst)
    · exact .inr (ih hrest)

/-- No key occurs twice in the outcomes of declarations with different names. -/
theorem nodup_keys_of_isOwn {decls : List ClassDecl}
    {outcomes : List Outcome}
    (h : List.Forall₂ IsOwn decls outcomes) (hnames : (decls.map ClassDecl.name).Nodup) :
    ((outcomes.flatMap edgesOf).map Relationship.key).Nodup := by
  induction h with
  | nil => exact List.nodup_nil
  | @cons d o rest os hd hrest ih =>
    rw [List.map_cons, List.nodup_cons] at hnames
    rw [List.flatMap_cons, List.map_append, List.nodup_append]
    refine ⟨?_, ih hnames.2, ?_⟩
    · cases o with
      | ok rs => exact hd.1
      | error e => exact List.nodup_nil
    · -- a shared key would give `d` and a later declaration one name
      intro key hkey key' hkey' heq
      obtain ⟨r, hr, rfl⟩ := List.mem_map.mp hkey
      obtain ⟨r', hr', rfl⟩ := List.mem_map.mp hkey'
      have hsource : r.source = r'.source := congrArg RelationshipKey.source heq
      rw [source_of_mem_edgesOf hd hr] at hsource
      exact hnames.1 (hsource ▸ source_mem_of_isOwn hrest hr')

/-! ## Putting outcomes together -/

/-- The diagram has the edges of all outcomes, and the set they go through drops none. -/
theorem assemble_relationships {kept : List ClassDecl} {duplicates : List String}
    {outcomes : List Outcome}
    (h : List.Forall₂ IsOwn kept outcomes) (hnames : (kept.map ClassDecl.name).Nodup) :
    (assemble kept duplicates outcomes).diagram.relationships = outcomes.flatMap edgesOf := by
  show (RelationshipSet.empty.extend (outcomes.flatMap edgesOf)).edges = _
  rw [RelationshipSet.extend_edges]
  exact firstsAfter_of_nodup (nodup_keys_of_isOwn h hnames)

/-- The diagram has the boxes of the kept declarations and after them only stubs. -/
theorem assemble_entities (kept : List ClassDecl) (duplicates : List String)
    (outcomes : List Outcome) :
    ∃ stubs : List String, (assemble kept duplicates outcomes).diagram.entities
      = kept.map ClassDecl.entity ++ stubs.map Entity.stub := by
  let draft : Draft := ⟨kept.map ClassDecl.entity, .empty⟩
  exact ⟨_, (draft.addRelationships (outcomes.flatMap edgesOf)).finish_entities⟩

/-! ## Questions and answers -/

/-- A declaration fails by itself for an unresolved type only. -/
theorem not_isFatal_of_isOwn {d : ClassDecl} {e : AnalysisError} (h : d.IsOwn (.error e)) :
    e.isFatal = false := by
  obtain ⟨name, rfl⟩ := h
  rfl

/-- The outcomes of the declarations hold no error that stops the run. -/
theorem not_isFatal_of_mem {decls : List ClassDecl} {outcomes : List Outcome}
    (h : List.Forall₂ IsOwn decls outcomes) {e : AnalysisError} (he : .error e ∈ outcomes) :
    e.isFatal = false := by
  induction h with
  | nil => cases he
  | cons hd _ ih =>
    rcases List.mem_cons.mp he with heq | hrest
    · exact not_isFatal_of_isOwn (heq ▸ hd)
    · exact ih hrest

section

variable {s : Scope} {cancelled : Nat → Bool}

/-- A cancelled declaration gives the error for it, and the next one starts from the same
memo. -/
theorem classifyObserving_cons_of_cancelled {i : Nat} (h : cancelled i = true) (d : ClassDecl)
    (rest : List ClassDecl) (m : Memo) :
    (classifyObserving s cancelled i (d :: rest) m).1
      = .error .cancelled :: (classifyObserving s cancelled (i + 1) rest m).1 := by
  rw [classifyObserving, if_pos h]
  rfl

/-- A declaration that is not cancelled is classified, and its memo is handed to the next. -/
theorem classifyObserving_cons_of_calm {i : Nat} (h : cancelled i = false) (d : ClassDecl)
    (rest : List ClassDecl) (m : Memo) :
    classifyObserving s cancelled i (d :: rest) m
      = (((d.relationships (Resolver.remembering s)).run m).1
            :: (classifyObserving s cancelled (i + 1) rest
              ((d.relationships (Resolver.remembering s)).run m).2).1,
          (classifyObserving s cancelled (i + 1) rest
            ((d.relationships (Resolver.remembering s)).run m).2).2) := by
  rw [classifyObserving, if_neg (Bool.eq_false_iff.mp h)]
  rfl

/-- Without a positive answer the declarations are classified as if nobody had asked. -/
theorem classifyObserving_of_calm {i : Nat} {decls : List ClassDecl}
    (h : ∀ j, i ≤ j → j < i + decls.length → cancelled j = false) (m : Memo) :
    classifyObserving s cancelled i decls m = classifyAll s decls m := by
  induction decls generalizing i m with
  | nil => rfl
  | cons d rest ih =>
    rw [List.length_cons] at h
    have hrest : ∀ j, i + 1 ≤ j → j < i + 1 + rest.length → cancelled j = false :=
      fun j hle hlt => h j (by omega) (by omega)
    rw [classifyObserving_cons_of_calm (h i (by omega) (by omega)), classifyAll_cons, ih hrest]

/-- After a positive answer one of the outcomes says so. -/
theorem cancelled_mem_classifyObserving {i j : Nat} {decls : List ClassDecl} (hle : i ≤ j)
    (hlt : j < i + decls.length) (h : cancelled j = true) (m : Memo) :
    .error .cancelled ∈ (classifyObserving s cancelled i decls m).1 := by
  induction decls generalizing i m with
  | nil =>
    rw [List.length_nil] at hlt
    omega
  | cons d rest ih =>
    rw [List.length_cons] at hlt
    by_cases hhead : cancelled i = true
    · rw [classifyObserving_cons_of_cancelled hhead]
      exact List.mem_cons_self
    · have hne : i ≠ j := by
        intro heq
        rw [heq] at hhead
        exact hhead h
      rw [classifyObserving_cons_of_calm (Bool.eq_false_iff.mpr hhead)]
      exact List.mem_cons_of_mem _ (ih (by omega) (by omega) _)

/-- Nothing else than being cancelled is a fatal outcome of a declaration. -/
theorem eq_cancelled_of_isFatal {i : Nat} {decls : List ClassDecl} {m : Memo}
    {e : AnalysisError} (h : .error e ∈ (classifyObserving s cancelled i decls m).1)
    (hfatal : e.isFatal = true) : e = .cancelled := by
  induction decls generalizing i m with
  | nil => cases h
  | cons d rest ih =>
    cases hhead : cancelled i with
    | true =>
      rw [classifyObserving_cons_of_cancelled hhead] at h
      rcases List.mem_cons.mp h with heq | hrest
      · exact Except.error.inj heq
      · exact ih hrest
    | false =>
      rw [classifyObserving_cons_of_calm hhead] at h
      rcases List.mem_cons.mp h with heq | hrest
      · have hown := outcomeFrom_isOwn
          (s.answers ((d.relationships (Resolver.remembering s)).run m).2) d
        rw [← relationships_run, ← heq] at hown
        exact absurd hfatal (Bool.eq_false_iff.mp (not_isFatal_of_isOwn hown))
      · exact ih hrest

end

/-- Outcomes are taken in up to the first fatal one. -/
theorem foldlM_absorb_of_cancelled {outcomes : List Outcome} {acc : Draft × List AnalysisError}
    (hmem : .error .cancelled ∈ outcomes)
    (h : ∀ e, .error e ∈ outcomes → e.isFatal = true → e = .cancelled) :
    outcomes.foldlM absorb acc = .error .cancelled := by
  induction outcomes generalizing acc with
  | nil => cases hmem
  | cons o rest ih =>
    have hrest : ∀ e, .error e ∈ rest → e.isFatal = true → e = .cancelled :=
      fun e he => h e (List.mem_cons_of_mem _ he)
    rw [List.foldlM_cons]
    cases o with
    | ok rs => exact ih ((List.mem_cons.mp hmem).resolve_left nofun) hrest
    | error e =>
      by_cases hfatal : e.isFatal = true
      · rw [absorb, if_pos hfatal, h e List.mem_cons_self hfatal]
        rfl
      · have hne : (.error .cancelled : Outcome) ≠ .error e := by
          intro heq
          rw [← Except.error.inj heq] at hfatal
          exact hfatal rfl
        rw [absorb, if_neg hfatal]
        exact ih ((List.mem_cons.mp hmem).resolve_left hne) hrest

/-- Without a fatal one, the outcomes are taken in as if all at once. -/
theorem foldlM_absorb_of_calm {outcomes : List Outcome} {draft : Draft}
    {failures : List AnalysisError}
    (h : ∀ e, .error e ∈ outcomes → e.isFatal = false) :
    outcomes.foldlM absorb (draft, failures)
      = .ok (draft.addRelationships (outcomes.flatMap edgesOf),
          failures ++ outcomes.filterMap failure?) := by
  induction outcomes generalizing draft failures with
  | nil => rw [List.filterMap_nil, List.append_nil]; rfl
  | cons o rest ih =>
    have hrest : ∀ e, .error e ∈ rest → e.isFatal = false :=
      fun e he => h e (List.mem_cons_of_mem _ he)
    rw [List.foldlM_cons, List.flatMap_cons]
    cases o with
    | ok rs =>
      show List.foldlM absorb (draft.addRelationships rs, failures) rest = _
      rw [ih hrest]
      unfold Draft.addRelationships RelationshipSet.extend
      rw [List.foldl_append]
      rfl
    | error e =>
      have hcalm : ¬e.isFatal = true := Bool.eq_false_iff.mp (h e List.mem_cons_self)
      rw [absorb, if_neg hcalm]
      show List.foldlM absorb (draft, failures ++ [e]) rest = _
      rw [ih hrest, List.append_assoc]
      rfl

/-- Nobody asks about malformed declarations. -/
theorem runObserving_of_malformed (settings : ResolverSettings) (cancelled : Nat → Bool)
    {decls : List ClassDecl} {e : AnalysisError} (h : Validation.checkAll decls = .error e) :
    runObserving settings cancelled decls = .error e := by
  unfold runObserving
  rw [h]
  rfl

/-- What is left of a run once the declarations are known to be well-formed. -/
theorem runObserving_of_valid (settings : ResolverSettings) (cancelled : Nat → Bool)
    {decls : List ClassDecl} (h : Validation.checkAll decls = .ok ()) :
    runObserving settings cancelled decls
      = if cancelled (dedupe decls).1.length then .error .cancelled
        else ((classifyObserving (scopeOf settings (dedupe decls).1) cancelled 0
            (dedupe decls).1 .empty).1.foldlM absorb
              (⟨(dedupe decls).1.map (·.entity), .empty⟩, [])).map
            fun (draft, failures) => ⟨draft.finish, failures, (dedupe decls).2⟩ := by
  unfold runObserving
  rw [h]
  rfl

/-- One positive answer is enough, wherever it is given. -/
theorem runObserving_of_cancelled (settings : ResolverSettings) {cancelled : Nat → Bool}
    {decls : List ClassDecl} (h : Validation.checkAll decls = .ok ()) {i : Nat}
    (hi : i < checkCount decls) (hcancelled : cancelled i = true) :
    runObserving settings cancelled decls = .error .cancelled := by
  rw [runObserving_of_valid settings cancelled h]
  by_cases hlast : cancelled (dedupe decls).1.length = true
  · rw [if_pos hlast]
  · -- then it was given before a declaration, whose outcome stops the others from being taken in
    have hne : i ≠ (dedupe decls).1.length := by
      intro heq
      exact hlast (heq ▸ hcancelled)
    unfold checkCount at hi
    rw [if_neg hlast, foldlM_absorb_of_cancelled
      (cancelled_mem_classifyObserving (Nat.zero_le i) (by omega) hcancelled _)
      (fun e => eq_cancelled_of_isFatal)]
    rfl

/-- Without a positive answer a run on well-formed declarations succeeds. -/
theorem runObserving_of_calm (settings : ResolverSettings) {cancelled : Nat → Bool}
    {decls : List ClassDecl} (h : Validation.checkAll decls = .ok ())
    (hcalm : ∀ i < checkCount decls, cancelled i = false) :
    runObserving settings cancelled decls = .ok (ofValid settings decls) := by
  have hlast : ¬cancelled (dedupe decls).1.length = true :=
    Bool.eq_false_iff.mp (hcalm _ (Nat.lt_succ_self _))
  have hclassified : classifyObserving (scopeOf settings (dedupe decls).1) cancelled 0
      (dedupe decls).1 .empty
        = classifyAll (scopeOf settings (dedupe decls).1) (dedupe decls).1 .empty :=
    classifyObserving_of_calm
      (fun j _ hj => hcalm j (by unfold checkCount; omega)) _
  rw [runObserving_of_valid settings cancelled h, if_neg hlast, hclassified,
    foldlM_absorb_of_calm fun _ => not_isFatal_of_mem (classifyAll_isOwn _ _ _)]
  rfl

/-! ## A whole run -/

/-- A run that nothing cancels succeeds on well-formed declarations. -/
theorem run_of_valid (settings : ResolverSettings) {decls : List ClassDecl}
    (h : Validation.checkAll decls = .ok ()) :
    run settings decls = .ok (ofValid settings decls) :=
  runObserving_of_calm settings h fun _ _ => rfl

/-- The first declaration of each name. -/
def kept (decls : List ClassDecl) : List ClassDecl :=
  firstsAfter ClassDecl.name [] decls

/-- The later declarations of a name. -/
def dropped (decls : List ClassDecl) : List ClassDecl :=
  repeatsAfter ClassDecl.name [] decls

theorem nodup_kept (decls : List ClassDecl) : ((kept decls).map ClassDecl.name).Nodup :=
  nodup_firstsAfter [] decls

theorem kept_kept (decls : List ClassDecl) : kept (kept decls) = kept decls :=
  firstsAfter_of_nodup (nodup_kept decls)

theorem dropped_kept (decls : List ClassDecl) : dropped (kept decls) = [] :=
  repeatsAfter_of_nodup (nodup_kept decls)

/-- Of declarations with different names, one has the name of `d`. -/
theorem filter_name_eq {decls : List ClassDecl} (h : (decls.map ClassDecl.name).Nodup)
    {d : ClassDecl} (hd : d ∈ decls) : decls.filter (fun e => e.name == d.name) = [d] := by
  induction decls with
  | nil => cases hd
  | cons e rest ih =>
    rw [List.map_cons, List.nodup_cons] at h
    rcases List.mem_cons.mp hd with rfl | hmem
    · have hnone : rest.filter (fun e => e.name == d.name) = [] := by
        rw [List.filter_eq_nil_iff]
        intro e he heq
        exact h.1 (beq_iff_eq.mp heq ▸ List.mem_map_of_mem he)
      rw [List.filter_cons_of_pos (p := fun e : ClassDecl => e.name == d.name)
        (beq_self_eq_true _), hnone]
    · have hne : ¬(e.name == d.name) = true := by
        intro heq
        exact h.1 (beq_iff_eq.mp heq ▸ List.mem_map_of_mem hmem)
      rw [List.filter_cons_of_neg (p := fun e : ClassDecl => e.name == d.name) hne]
      exact ih h.2 hmem

/-- A declaration of a new name is kept where it stands. -/
theorem kept_append_cons {before : List ClassDecl} {d : ClassDecl}
    (h : d.name ∉ (kept before).map ClassDecl.name) (after : List ClassDecl) :
    kept (before ++ d :: after) = kept before ++ d :: firstsAfter ClassDecl.name
      ((kept before).map ClassDecl.name ++ [d.name]) after := by
  have hnew : ¬((kept before).map ClassDecl.name).contains d.name = true := by
    rw [List.contains_iff_mem]
    exact h
  unfold kept at hnew ⊢
  rw [firstsAfter_append, List.nil_append, firstsAfter, if_neg hnew]

/-- A declaration of a new name is not dropped. -/
theorem dropped_concat {before : List ClassDecl} {d : ClassDecl}
    (h : d.name ∉ (kept before).map ClassDecl.name) : dropped (before ++ [d]) = dropped before := by
  have hnew : ¬((kept before).map ClassDecl.name).contains d.name = true := by
    rw [List.contains_iff_mem]
    exact h
  unfold kept at hnew
  unfold dropped
  rw [repeatsAfter_append, List.nil_append, repeatsAfter, if_neg hnew, repeatsAfter,
    List.append_nil]

/-- The outcomes of a run: its kept declarations, in their order and with one memo. -/
def outcomes (settings : ResolverSettings) (decls : List ClassDecl) :
    List Outcome :=
  ((classifyAll (scopeOf settings (kept decls)) (kept decls)).run .empty).1

theorem ofValid_eq (settings : ResolverSettings) (decls : List ClassDecl) :
    ofValid settings decls
      = assemble (kept decls) ((dropped decls).map ClassDecl.name) (outcomes settings decls) := by
  unfold ofValid
  rw [dedupe_eq]
  rfl

/-- The edges of an analysis are those of the outcomes in order. -/
theorem ofValid_relationships (settings : ResolverSettings) (decls : List ClassDecl) :
    (ofValid settings decls).diagram.relationships
      = (outcomes settings decls).flatMap edgesOf := by
  rw [ofValid_eq]
  exact assemble_relationships (classifyAll_isOwn _ _ _) (nodup_kept decls)

/-- The failures of an analysis are those of the outcomes in order. -/
theorem ofValid_failures (settings : ResolverSettings) (decls : List ClassDecl) :
    (ofValid settings decls).failures = (outcomes settings decls).filterMap failure? := by
  rw [ofValid_eq]
  rfl

theorem ofValid_duplicates (settings : ResolverSettings) (decls : List ClassDecl) :
    (ofValid settings decls).duplicates = (dropped decls).map ClassDecl.name := by
  rw [ofValid_eq]
  rfl

/-- A run that nothing cancels succeeds on well-formed declarations only. -/
theorem run_eq_ok_iff {settings : ResolverSettings} {decls : List ClassDecl} {a : Analysis} :
    run settings decls = .ok a
      ↔ Validation.checkAll decls = .ok () ∧ a = ofValid settings decls := by
  constructor
  · intro h
    cases hvalid : Validation.checkAll decls with
    | ok u =>
      rw [run_of_valid settings hvalid] at h
      exact ⟨rfl, (Except.ok.inj h).symm⟩
    | error e =>
      unfold run at h
      rw [runObserving_of_malformed settings _ hvalid] at h
      cases h
  · rintro ⟨hvalid, rfl⟩
    exact run_of_valid settings hvalid

/-- **The exact shape of an analysis.** On well-formed declarations a run succeeds. Its
entities are the boxes of the kept declarations, in their order, and after them only
stubs. It reports the names of the dropped declarations, in their order; each declaration
is kept or dropped. Its relationships are the edges of the outcomes, one after the other,
and its failures the errors among them. And the dropped declarations have no influence:
without them the run ends with the same diagram and the same failures. -/
theorem run_shape (settings : ResolverSettings) (decls : List ClassDecl)
    (h : Validation.checkAll decls = .ok ()) :
    ∃ a, run settings decls = .ok a
      ∧ (∃ stubs : List String,
          a.diagram.entities = (kept decls).map ClassDecl.entity ++ stubs.map Entity.stub)
      ∧ a.duplicates = (dropped decls).map ClassDecl.name
      ∧ decls.length = (kept decls).length + a.duplicates.length
      ∧ a.diagram.relationships = (outcomes settings decls).flatMap edgesOf
      ∧ a.failures = (outcomes settings decls).filterMap failure?
      ∧ run settings (kept decls) = .ok { a with duplicates := [] } := by
  refine ⟨ofValid settings decls, run_of_valid settings h, ?_⟩
  have hown := classifyAll_isOwn (scopeOf settings (kept decls)) (kept decls) .empty
  rw [ofValid_eq]
  refine ⟨assemble_entities _ _ _, rfl, ?_, assemble_relationships hown (nodup_kept decls), rfl, ?_⟩
  · show decls.length = (kept decls).length + ((dropped decls).map ClassDecl.name).length
    rw [List.length_map]
    exact (length_firstsAfter_add [] decls).symm
  · -- the kept declarations are well-formed, and a run over them keeps them all
    have hkept : Validation.checkAll (kept decls) = .ok () := by
      rw [Validation.checkAll_eq_ok_iff] at h ⊢
      exact fun d hd => h d (mem_of_mem_firstsAfter hd)
    rw [run_of_valid settings hkept, ofValid_eq, kept_kept, dropped_kept]
    unfold outcomes
    rw [kept_kept]
    rfl

/-- A second declaration of `Room` is reported, and the run goes on as if it were not
there. -/
theorem run_shape_declared_twice :
    ∃ a, run {} [{ name := "Room", kind := .class },
          { name := "Hub", kind := .class,
            fields := [{ name := "rooms", type := .named "List" [.plain "Room"] }] },
          { name := "Room", kind := .enum }] = .ok a
      ∧ a.duplicates = ["Room"]
      ∧ run {} [{ name := "Room", kind := .class },
          { name := "Hub", kind := .class,
            fields := [{ name := "rooms", type := .named "List" [.plain "Room"] }] }]
        = .ok { a with duplicates := [] } := by
  obtain ⟨a, hrun, -, hduplicates, -, -, -, hkept⟩ := run_shape {}
    [{ name := "Room", kind := .class },
      { name := "Hub", kind := .class,
        fields := [{ name := "rooms", type := .named "List" [.plain "Room"] }] },
      { name := "Room", kind := .enum }] rfl
  exact ⟨a, hrun, hduplicates, hkept⟩

end ClassDiagram.Analysis
