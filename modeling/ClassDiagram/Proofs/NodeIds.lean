import ClassDiagram.Proofs.Drafting
import ClassDiagram.Render.Dot
import ClassDiagram.Render.Mermaid
import Mathlib.Data.List.Forall2

/-!
# When ids keep entities apart

In both diagram languages the id of a node is made from the qualified name of its entity,
character by character: separators become underscores, and one of the languages drops angle
brackets. Underscores may also stand in names as they are, so two names can have one id and
share one box.

`nodeIds_apart_exactly` says for which diagrams this happens. Since separators are replaced
one by one, two ids without angle brackets agree exactly when the names, their brackets left
out, agree place by place up to the characters that look like an underscore afterwards
(`Mermaid.nodeId_eq_iff`). The ids that keep the brackets merge no more than these
(`Mermaid.nodeId_eq_of_dot`). Names whose only such character is the dot are always kept
apart.
-/

namespace ClassDiagram

namespace Render

/-- The characters that become an underscore in an id. -/
def separators : List Char :=
  ['/', '.', '-', ' ', '$']

/-- A character of an id in place of one of a name. -/
def idMark (c : Char) : Char :=
  if c ∈ separators then '_' else c

/-- Two characters that look alike in an id: equal ones, and any two that are or become an
underscore. -/
def AlikeInId (c c' : Char) : Prop :=
  c = c' ∨ (c ∈ '_' :: separators ∧ c' ∈ '_' :: separators)

/-- A name without its angle brackets. -/
def withoutAngles (name : String) : List Char :=
  name.toList.filter fun c => c ∉ ['<', '>']

theorem idMark_of_mem {c : Char} (h : c ∈ '_' :: separators) : idMark c = '_' := by
  rcases List.mem_cons.mp h with rfl | hsep
  · decide
  · exact if_pos hsep

theorem idMark_of_not_mem {c : Char} (h : c ∉ '_' :: separators) : idMark c = c :=
  if_neg fun hsep => h (List.mem_cons_of_mem _ hsep)

/-- Two characters have the same mark exactly when an id cannot tell them apart. -/
theorem idMark_eq_iff {c c' : Char} : idMark c = idMark c' ↔ AlikeInId c c' := by
  -- a character that keeps its look is no underscore
  have hne : ∀ {x : Char}, x ∉ '_' :: separators → x ≠ '_' :=
    fun hx heq => hx (heq ▸ List.mem_cons_self)
  by_cases h : c ∈ '_' :: separators
  · by_cases h' : c' ∈ '_' :: separators
    · rw [idMark_of_mem h, idMark_of_mem h']
      exact iff_of_true rfl (.inr ⟨h, h'⟩)
    · rw [idMark_of_mem h, idMark_of_not_mem h']
      refine iff_of_false (fun heq => hne h' heq.symm) ?_
      rintro (rfl | ⟨-, hmem⟩)
      · exact h' h
      · exact h' hmem
  · by_cases h' : c' ∈ '_' :: separators
    · rw [idMark_of_not_mem h, idMark_of_mem h']
      refine iff_of_false (hne h) ?_
      rintro (rfl | ⟨hmem, -⟩)
      · exact h h'
      · exact h hmem
    · rw [idMark_of_not_mem h, idMark_of_not_mem h']
      exact ⟨.inl, fun halike => halike.resolve_right fun hmem => h hmem.1⟩

/-- Texts marked alike agree place by place. -/
theorem map_idMark_eq_iff {cs cs' : List Char} :
    cs.map idMark = cs'.map idMark ↔ List.Forall₂ AlikeInId cs cs' := by
  rw [← List.forall₂_eq_eq_eq, List.forall₂_map_left_iff, List.forall₂_map_right_iff]
  simp only [idMark_eq_iff]

theorem Dot.nodeId_eq (name : String) :
    Dot.nodeId name = String.ofList (name.toList.map idMark) := by
  have hchar : ∀ c, Dot.idChar c = [idMark c] := by
    intro c
    simp only [Dot.idChar, idMark, separators, List.mem_cons, List.not_mem_nil, or_false]
    split <;> rfl
  unfold Dot.nodeId Text.replaceEach
  rw [funext hchar, List.map_eq_flatMap]

theorem Mermaid.nodeId_eq (name : String) :
    Mermaid.nodeId name = String.ofList ((withoutAngles name).map idMark) := by
  -- an angle bracket is no separator, so it is dropped whatever the order of the tests
  have hchar : ∀ c, Mermaid.idChar c = if c ∈ ['<', '>'] then [] else [idMark c] := by
    intro c
    by_cases hangle : c ∈ ['<', '>']
    · rw [if_pos hangle]
      simp only [List.mem_cons, List.not_mem_nil, or_false] at hangle
      rcases hangle with rfl | rfl <;> decide
    · rw [if_neg hangle]
      simp only [List.mem_cons, List.not_mem_nil, or_false] at hangle
      simp only [Mermaid.idChar, idMark, separators, List.mem_cons, List.not_mem_nil, or_false,
        if_neg hangle]
      split <;> rfl
  unfold Mermaid.nodeId Text.replaceEach withoutAngles
  refine congrArg String.ofList ?_
  induction name.toList with
  | nil => rfl
  | cons c rest ih =>
    rw [List.flatMap_cons, ih, hchar, List.filter_cons]
    by_cases hangle : c ∈ ['<', '>']
    · rw [if_pos hangle, if_neg (not_not.mpr hangle ∘ of_decide_eq_true), List.nil_append]
    · rw [if_neg hangle, if_pos (decide_eq_true hangle), List.map_cons, List.singleton_append]

/-- Two names have one id if and only if they agree place by place in the id. -/
theorem Mermaid.nodeId_eq_iff {a b : String} :
    Mermaid.nodeId a = Mermaid.nodeId b
      ↔ List.Forall₂ AlikeInId (withoutAngles a) (withoutAngles b) := by
  rw [Mermaid.nodeId_eq, Mermaid.nodeId_eq, String.ofList_inj, map_idMark_eq_iff]

/-- What the language without replacements for angle brackets merges, the other one merges
too: its ids are the same but for the brackets. -/
theorem Mermaid.nodeId_eq_of_dot {a b : String} (h : Dot.nodeId a = Dot.nodeId b) :
    Mermaid.nodeId a = Mermaid.nodeId b := by
  have hangle : ∀ c, idMark c ∈ ['<', '>'] ↔ c ∈ ['<', '>'] := by
    intro c
    by_cases hsep : c ∈ '_' :: separators
    · rw [idMark_of_mem hsep]
      refine iff_of_false (by decide) fun hmem => ?_
      simp only [List.mem_cons, List.not_mem_nil, or_false] at hmem
      rcases hmem with rfl | rfl <;> exact absurd hsep (by decide)
    · rw [idMark_of_not_mem hsep]
  have hfilter : ∀ name : String, (withoutAngles name).map idMark
      = (name.toList.map idMark).filter fun c => c ∉ ['<', '>'] := by
    intro name
    rw [List.filter_map, withoutAngles]
    refine congrArg _ (List.filter_congr fun c _ => ?_)
    exact decide_eq_decide.mpr (not_congr (hangle c).symm)
  rw [Dot.nodeId_eq, Dot.nodeId_eq, String.ofList_inj] at h
  rw [Mermaid.nodeId_eq, Mermaid.nodeId_eq, hfilter, hfilter, h]

end Render

namespace Diagram

open Render

/-- Entities of different names have different ids in both diagram languages. -/
def IdsApart (d : Diagram) : Prop :=
  ∀ e ∈ d.entities, ∀ e' ∈ d.entities, e.name ≠ e'.name →
    Mermaid.nodeId e.name ≠ Mermaid.nodeId e'.name ∧ Dot.nodeId e.name ≠ Dot.nodeId e'.name

/-- The ids of a diagram stay apart exactly when no two names are alike once their angle brackets
are gone. -/
theorem idsApart_iff {d : Diagram} :
    d.IdsApart ↔ ∀ e ∈ d.entities, ∀ e' ∈ d.entities, e.name ≠ e'.name →
      ¬ List.Forall₂ AlikeInId (withoutAngles e.name) (withoutAngles e'.name) := by
  refine forall₂_congr fun e _ => forall₂_congr fun e' _ => imp_congr_right fun _ => ?_
  rw [← Mermaid.nodeId_eq_iff]
  exact ⟨fun h => h.1, fun h => ⟨h, fun hdot => h (Mermaid.nodeId_eq_of_dot hdot)⟩⟩

/-- Texts in which nothing but the dot becomes an underscore are told apart. -/
theorem eq_of_alikeInId {cs cs' : List Char} (h : List.Forall₂ AlikeInId cs cs')
    (hdots : ∀ c ∈ cs, c ∈ '_' :: separators → c = '.')
    (hdots' : ∀ c ∈ cs', c ∈ '_' :: separators → c = '.') : cs = cs' := by
  induction h with
  | nil => rfl
  | cons halike _ ih =>
    obtain ⟨hhead, hrest⟩ := List.forall_mem_cons.mp hdots
    obtain ⟨hhead', hrest'⟩ := List.forall_mem_cons.mp hdots'
    rw [ih hrest hrest']
    rcases halike with rfl | ⟨hmem, hmem'⟩
    · rfl
    · rw [hhead hmem, hhead' hmem']

/-- **When ids keep entities apart.** In a diagram whose entities have qualified names,
entities of different names have different ids in both diagram languages if and only if no
two of these names agree place by place, angle brackets left out, up to the characters that
are or become an underscore. This is so in particular if the dot is the only character of
the names that is replaced, or looks like a replacement, or is dropped. -/
theorem nodeIds_apart_exactly (d : Diagram)
    (hvalid : ∀ e ∈ d.entities, Dotted.isQualified e.name = true) :
    (d.IdsApart ↔ ∀ e ∈ d.entities, ∀ e' ∈ d.entities, e.name ≠ e'.name →
      ¬ List.Forall₂ AlikeInId (withoutAngles e.name) (withoutAngles e'.name))
    ∧ ((∀ e ∈ d.entities, ∀ c ∈ e.name.toList, c ∉ ['/', '-', '$', '_', '<', '>']) →
      d.IdsApart) := by
  refine ⟨idsApart_iff, fun hplain => idsApart_iff.mpr fun e he e' he' hne halike => hne ?_⟩
  have hangles : ∀ e ∈ d.entities, withoutAngles e.name = e.name.toList := by
    intro e he
    refine List.filter_eq_self.mpr fun c hc => decide_eq_true fun hangle => ?_
    exact hplain e he c hc (List.mem_append_right ['/', '-', '$', '_'] hangle)
  have hdots : ∀ e ∈ d.entities, ∀ c ∈ e.name.toList, c ∈ '_' :: separators → c = '.' := by
    intro e he c hc hmem
    have hlisted : ∀ c ∈ '_' :: separators,
        c ∈ ['/', '-', '$', '_', '<', '>'] ∨ Text.isBlank c = true ∨ c = '.' := by
      have hblank : Text.isBlank ' ' = true := by decide
      simp [separators, hblank]
    have hblank := (Dotted.isIdentifier_iff.mp
      (Dotted.isIdentifier_of_isQualified (hvalid e he))).2 c hc
    rcases hlisted c hmem with hother | hblank' | hdot
    · exact absurd hother (hplain e he c hc)
    · rw [hblank] at hblank'
      cases hblank'
    · exact hdot
  rw [hangles e he, hangles e' he'] at halike
  exact String.toList_inj.mp (eq_of_alikeInId halike (hdots e he) (hdots e' he'))

/-- Rooms of two packages. -/
def roomsOfTwoPackages (p q : String) : Diagram :=
  (Draft.empty.after [.entity (ClassDecl.entity ⟨p ++ ".Room", .class, [], [], [], [], [], none⟩),
    .entity (ClassDecl.entity ⟨q ++ ".Room", .class, [], [], [], [], [], none⟩)]).finish

/-- Two rooms of different packages, in whose names only the dot becomes an underscore, have ids
that stay apart. -/
theorem nodeIds_apart_exactly_rooms :
    (∀ e ∈ (roomsOfTwoPackages "my.home" "my.office").entities,
      Dotted.isQualified e.name = true)
    ∧ (roomsOfTwoPackages "my.home" "my.office").IdsApart := by
  have hvalid : ∀ e ∈ (roomsOfTwoPackages "my.home" "my.office").entities,
      Dotted.isQualified e.name = true := by
    decide
  have hplain : (roomsOfTwoPackages "my.home" "my.office").entities.all (fun e =>
      e.name.toList.all fun c => c ∉ ['/', '-', '$', '_', '<', '>']) = true := by
    decide
  refine ⟨hvalid, (nodeIds_apart_exactly _ hvalid).2 fun e he c hc => ?_⟩
  exact of_decide_eq_true (List.all_eq_true.mp (List.all_eq_true.mp hplain e he) c hc)

/-- The rooms of `my.app` and `my_app` share one box. -/
theorem nodeIds_merge_rooms :
    (∀ e ∈ (roomsOfTwoPackages "my.app" "my_app").entities,
      Dotted.isQualified e.name = true)
    ∧ ¬ (roomsOfTwoPackages "my.app" "my_app").IdsApart
    ∧ Mermaid.render false (roomsOfTwoPackages "my.app" "my_app")
      = "classDiagram\n  class my_app_Room[\"Room\"]\n  class my_app_Room[\"Room\"]\n" := by
  refine ⟨by decide, fun hapart => ?_, by decide⟩
  have hne := hapart _ List.mem_cons_self _ (List.mem_cons_of_mem _ List.mem_cons_self)
  exact (hne (by decide)).1 (by decide)

end Diagram

end ClassDiagram
