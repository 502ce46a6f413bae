import ClassDiagram.Diagram.Graph
import Mathlib.Logic.Relation

/-!
# What a search reaches

`Reach.closure` marks exactly the names that can be reached along the edges
(`mem_closure_iff`).

Everything marked is reached, since only successors of marked names get onto the frontier
(`mark_sound`). The converse rests on two facts about the search. A successor of a marked
name is marked or still on the frontier, so once the frontier is empty the marked names are
closed under successors (`mark_closed`). And the frontier does become empty in time: a step
takes one name off it, and the names put onto it are paid for by edges that leave a name
not marked before, of which there are fewer afterwards (`unexplored_insert`).
-/

namespace ClassDiagram.Reach

/-- There is an edge from `a` to `b`. -/
def Joins (edges : List (String × String)) (a b : String) : Prop :=
  (a, b) ∈ edges

/-! ## The table of successors -/

theorem getD_foldl_successors (edges : List (String × String))
    (m : Std.HashMap String (List String)) (a : String) :
    (edges.foldl (fun m e => m.insert e.1 (e.2 :: m.getD e.1 [])) m).getD a []
      = ((edges.filter fun e => e.1 == a).map Prod.snd).reverse ++ m.getD a [] := by
  induction edges generalizing m with
  | nil => rfl
  | cons e rest ih =>
    rw [List.foldl_cons, ih, Std.HashMap.getD_insert]
    by_cases he : e.1 = a
    · subst he
      simp
    · simp [he]

/-- The successors of a name, the last edge first. -/
theorem getD_successors (edges : List (String × String)) (a : String) :
    (successors edges).getD a [] = ((edges.filter fun e => e.1 == a).map Prod.snd).reverse := by
  unfold successors
  rw [getD_foldl_successors, Std.HashMap.getD_empty, List.append_nil]

theorem mem_successors {edges : List (String × String)} {a b : String} :
    b ∈ (successors edges).getD a [] ↔ Joins edges a b := by
  rw [getD_successors, List.mem_reverse, List.mem_map]
  constructor
  · intro h
    obtain ⟨e, he, rfl⟩ := h
    obtain ⟨hmem, hfrom⟩ := List.mem_filter.mp he
    rw [Joins, ← beq_iff_eq.mp hfrom]
    exact hmem
  · intro h
    exact ⟨(a, b), List.mem_filter.mpr ⟨h, beq_self_eq_true a⟩, rfl⟩

theorem length_successors (edges : List (String × String)) (a : String) :
    ((successors edges).getD a []).length = edges.countP fun e => e.1 == a := by
  rw [getD_successors, List.length_reverse, List.length_map, List.countP_eq_length_filter]

/-! ## The search -/

/-- The number of edges that leave a name not marked yet. -/
def unexplored (edges : List (String × String)) (marked : Std.HashSet String) : Nat :=
  edges.countP fun e => !marked.contains e.1

/-- Marking a name explores the edges that leave it, and no others. -/
theorem unexplored_insert (edges : List (String × String)) {marked : Std.HashSet String}
    {name : String} (h : marked.contains name = false) :
    ((successors edges).getD name []).length + unexplored edges (marked.insert name)
      = unexplored edges marked := by
  rw [length_successors]
  unfold unexplored
  induction edges with
  | nil => rfl
  | cons e rest ih =>
    rw [List.countP_cons, List.countP_cons, List.countP_cons, Std.HashSet.contains_insert]
    by_cases he : name = e.1
    · subst he
      simp only [beq_self_eq_true, if_true, Bool.true_or, Bool.not_true, Bool.false_eq_true,
        if_false, h, Bool.not_false]
      omega
    · have hne : (e.1 == name) = false := beq_eq_false_iff_ne.mpr (Ne.symm he)
      have hne' : (name == e.1) = false := beq_eq_false_iff_ne.mpr he
      rw [hne, hne', Bool.false_or, if_neg Bool.false_ne_true]
      omega

section

variable {edges : List (String × String)} {start : String}

/-- What is marked can be reached, if this holds of what is given. -/
theorem mark_sound {next : String → List String} (hnext : ∀ a, ∀ b ∈ next a, Joins edges a b)
    (fuel : Nat) (frontier : List String) (marked : Std.HashSet String)
    (hfrontier : ∀ a ∈ frontier, Relation.ReflTransGen (Joins edges) start a)
    (hmarked : ∀ a ∈ marked, Relation.ReflTransGen (Joins edges) start a) :
    ∀ a ∈ mark next fuel frontier marked, Relation.ReflTransGen (Joins edges) start a := by
  induction fuel generalizing frontier marked with
  | zero => exact hmarked
  | succ fuel ih =>
    cases frontier with
    | nil => exact hmarked
    | cons name frontier =>
      have hname := hfrontier name List.mem_cons_self
      have hrest : ∀ a ∈ frontier, Relation.ReflTransGen (Joins edges) start a :=
        fun a ha => hfrontier a (List.mem_cons_of_mem name ha)
      rw [mark]
      split
      · exact ih frontier marked hrest hmarked
      · refine ih (next name ++ frontier) (marked.insert name) ?_ ?_
        · intro a ha
          rcases List.mem_append.mp ha with hsucc | hold
          · exact hname.tail (hnext name a hsucc)
          · exact hrest a hold
        · intro a ha
          rcases Std.HashSet.mem_insert.mp ha with heq | hold
          · rw [← beq_iff_eq.mp heq]
            exact hname
          · exact hmarked a hold

/-- The name has been marked, or its turn is still to come. -/
def Covered (marked : Std.HashSet String) (frontier : List String) (a : String) : Prop :=
  a ∈ marked ∨ a ∈ frontier

theorem Covered.of_seen {marked : Std.HashSet String} {name : String} {frontier : List String}
    {a : String} (hseen : name ∈ marked) (h : Covered marked (name :: frontier) a) :
    Covered marked frontier a := by
  rcases h with hmarked | hfrontier
  · exact .inl hmarked
  rcases List.mem_cons.mp hfrontier with rfl | hrest
  · exact .inl hseen
  · exact .inr hrest

theorem Covered.of_new {marked : Std.HashSet String} {name : String} {frontier : List String}
    {a : String} (h : Covered marked (name :: frontier) a) (more : List String) :
    Covered (marked.insert name) (more ++ frontier) a := by
  rcases h with hmarked | hfrontier
  · exact .inl (Std.HashSet.mem_insert.mpr (.inr hmarked))
  rcases List.mem_cons.mp hfrontier with rfl | hrest
  · exact .inl (Std.HashSet.mem_insert.mpr (.inl (beq_self_eq_true a)))
  · exact .inr (List.mem_append_right more hrest)

/-- With fuel for the frontier and for every unexplored edge, all that is covered gets
marked, and so does every successor of a marked name. -/
theorem mark_closed (fuel : Nat) (frontier : List String) (marked : Std.HashSet String)
    (hfuel : frontier.length + unexplored edges marked < fuel)
    (hopen : ∀ a ∈ marked, ∀ b, Joins edges a b → Covered marked frontier b) :
    (∀ a, Covered marked frontier a →
        a ∈ mark (fun name => (successors edges).getD name []) fuel frontier marked)
      ∧ ∀ a ∈ mark (fun name => (successors edges).getD name []) fuel frontier marked,
        ∀ b, Joins edges a b →
          b ∈ mark (fun name => (successors edges).getD name []) fuel frontier marked := by
  induction fuel generalizing frontier marked with
  | zero => omega
  | succ fuel ih =>
    cases frontier with
    | nil =>
      -- nothing is open any more
      have hcovers : ∀ a, Covered marked [] a → a ∈ marked := by
        intro a ha
        exact ha.resolve_right List.not_mem_nil
      rw [mark]
      exact ⟨hcovers, fun a ha b hab => hcovers b (hopen a ha b hab)⟩
    | cons name frontier =>
      rw [List.length_cons] at hfuel
      rw [mark]
      by_cases hseen : marked.contains name = true
      · rw [if_pos hseen]
        obtain ⟨hcovers, hclosed⟩ := ih frontier marked (by omega)
          (fun a ha b hab => (hopen a ha b hab).of_seen hseen)
        exact ⟨fun a ha => hcovers a (ha.of_seen hseen), hclosed⟩
      · rw [if_neg hseen]
        have hpaid := unexplored_insert edges (Bool.eq_false_iff.mpr hseen)
        obtain ⟨hcovers, hclosed⟩ := ih ((successors edges).getD name [] ++ frontier)
          (marked.insert name) (by rw [List.length_append]; omega) (by
            intro a ha b hab
            rcases Std.HashSet.mem_insert.mp ha with heq | hold
            · rw [← beq_iff_eq.mp heq] at hab
              exact .inr (List.mem_append_left _ (mem_successors.mpr hab))
            · exact (hopen a hold b hab).of_new _)
        exact ⟨fun a ha => hcovers a (ha.of_new _), hclosed⟩

/-- **The search is exact.** -/
theorem mem_closure_iff {name : String} :
    name ∈ closure edges start ↔ Relation.ReflTransGen (Joins edges) start name := by
  have hfuel : [start].length + unexplored edges ∅ < edges.length + 2 := by
    have hle : unexplored edges ∅ ≤ edges.length := List.countP_le_length
    rw [List.length_singleton]
    omega
  obtain ⟨hcovers, hclosed⟩ := mark_closed (edges.length + 2) [start] ∅ hfuel
    (fun a ha => absurd ha Std.HashSet.not_mem_empty)
  constructor
  · refine mark_sound (fun a b hb => mem_successors.mp hb) _ [start] ∅ ?_ ?_ name
    · intro a ha
      rw [List.mem_singleton.mp ha]
    · intro a ha
      exact absurd ha Std.HashSet.not_mem_empty
  · intro h
    induction h with
    | refl => exact hcovers start (.inr List.mem_cons_self)
    | tail _ hstep ih => exact hclosed _ ih _ hstep

end

end ClassDiagram.Reach
