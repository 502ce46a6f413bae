import ClassDiagram.Proofs.EdgeShape
import ClassDiagram.Proofs.MemoInvariant

/-!
# Nothing fails in a lenient scope

A scope that is not strict has an answer to every type: what is neither known nor foreign is
made foreign, or a type outside the diagram. That an outcome is a resolution is handed on by
the clauses of resolution (`inherited_resolved`). So `Memo.Resolved`, which says that every
remembered outcome is a resolution, is an invariant of a whole run
(`classifyAll_resolved`), and it is the only thing that matters: names that are ambiguous in
their written form can be given one another's answers, but these are answers all the same.
-/

namespace ClassDiagram

/-- Every remembered outcome is a resolution. -/
def Memo.Resolved (m : Memo) : Prop :=
  ∀ (key : String) (slot : Slot), m.slots[key]? = some slot → ∃ r, slot = .ok r

/-- A computation of an outcome that finds a resolution if all that is remembered are
resolutions, and leaves it so. -/
def Remembering.Resolves (x : Remembering Slot) : Prop :=
  ∀ m : Memo, m.Resolved → (∃ r, (x m).1 = .ok r) ∧ (x m).2.Resolved

namespace Scope

variable {s : Scope}

theorem leafOutcome_of_lenient (hlenient : s.settings.strict = false) (name : String) :
    ∃ r, s.leafOutcome name = .ok r := by
  unfold leafOutcome unknownOutcome
  rw [hlenient]
  split
  · exact ⟨_, rfl⟩
  · split
    · exact ⟨_, rfl⟩
    · split
      · exact ⟨_, rfl⟩
      · cases s.settings.unknownTypes with
        | foreign => exact ⟨_, rfl⟩
        | external => exact ⟨_, rfl⟩

theorem inherited_resolved (hlenient : s.settings.strict = false) :
    Inherited s fun slot => ∃ r, slot = .ok r where
  leaf := leafOutcome_of_lenient hlenient
  foreign := ⟨_, rfl⟩
  wrap w transparent slot h := by
    obtain ⟨r, rfl⟩ := h
    exact ⟨_, rfl⟩
  sides hkey hvalue := by
    obtain ⟨k, rfl⟩ := hkey
    obtain ⟨v, rfl⟩ := hvalue
    exact ⟨_, rfl⟩

theorem recallType_resolves (hlenient : s.settings.strict = false) (t : TypeRef) :
    (s.recallType t).Resolves :=
  recallType_gives (inherited_resolved hlenient) t

end Scope

namespace Analysis

open ClassDecl

theorem classifyAll_resolved {s : Scope} (hlenient : s.settings.strict = false)
    (decls : List ClassDecl) {m : Memo} (hm : m.Resolved) :
    (classifyAll s decls m).2.Resolved := by
  induction decls generalizing m with
  | nil => exact hm
  | cons d rest ih =>
    rw [classifyAll_cons]
    refine ih (Consults.invariant (relationships_consults s d) (fun t m hm => ?_) hm)
    exact (Scope.recallType_resolves hlenient t m hm).2

/-- Failures are for the strict. -/
theorem strict_of_failures_ne_nil {settings : ResolverSettings} {decls : List ClassDecl}
    (h : (ofValid settings decls).failures ≠ []) : settings.strict = true := by
  by_contra hstrict
  have hlenient : settings.strict = false := Bool.eq_false_iff.mpr hstrict
  refine h ?_
  rw [ofValid_failures, outcomes_eq_settled, List.filterMap_map, List.filterMap_eq_nil_iff]
  intro d _
  let scope := scopeOf settings (kept decls)
  have hmemo : (classifyAll scope (kept decls) .empty).2.Resolved :=
    classifyAll_resolved hlenient (kept decls) Memo.all_empty
  have hanswers : ∀ t ∈ d.required, ∃ r, settled settings decls t = .ok r :=
    fun t _ => (Scope.recallType_resolves hlenient t _ hmemo).1
  show failure? (outcomeFrom (settled settings decls) d) = none
  rw [outcomeFrom_of_resolved _ d hanswers]
  rfl

end Analysis

end ClassDiagram
