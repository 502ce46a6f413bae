import ClassDiagram.Proofs.BodyScope

/-!
# Where a sighting comes from

Everything that is seen in a body is seen of one of its nodes. `Code.ownSightings` says what
a node shows by itself, and `mem_allSightings_iff` that nothing else is seen: no node is left
out, and no sighting arises from two nodes together. The order is lost here, because the
arguments of a call are noted only after its receiver.

A node looks at its parts only as far as their *face* goes: whether a part is a bare name, the
current object, a field of it, or a creation. Two parts with one face are interchangeable for
what is seen of the node around them.
-/

namespace ClassDiagram.Java

/-- Everything that is seen of a node itself, its parts aside. -/
def Code.ownSightings : Code → List Sighting
  | .name _ => []
  | .this => []
  | .access object member =>
    match object with
    | .name x => [.receiver x member]
    | _ => []
  | .invoke _ args => argumentSightings args
  | .call receiver _ method args => callSightings receiver method ++ argumentSightings args
  | .create _ _ args _ => argumentSightings args
  | .assign target value => assignSightings target value
  | .locals _ type declarators => localSightings type declarators
  | .forEach _ type x _ =>
    match type.toTypeRef? with
    | some t => [.variable ⟨x, t⟩]
    | none => []
  | .delegate toThis _ args => (if toThis then [.delegation] else []) ++ argumentSightings args
  | .declare _ => []
  | .group _ => []

mutual

/-- What is seen in a piece of code is seen at its root or at a node inside. -/
theorem Code.mem_sightings_iff {s : Sighting} : ∀ c : Code,
    s ∈ c.sightings ↔ s ∈ c.ownSightings ∨ ∃ n ∈ c.inner, s ∈ n.ownSightings
  | .name _ => by simp [Code.sightings, Code.ownSightings, Code.inner]
  | .this => by simp [Code.sightings, Code.ownSightings, Code.inner]
  | .access object member => by
    have hown : (Code.access object member).sightings
        = (Code.access object member).ownSightings ++ object.sightings := by
      cases object <;> rfl
    rw [hown, List.mem_append, Code.mem_sightings_iff object, Code.inner,
      List.exists_mem_cons_iff]
  | .invoke _ args => by
    rw [Code.sightings, List.mem_append, mem_allSightings_iff args, Code.inner, Code.ownSightings]
  | .call receiver notes method args => by
    simp only [Code.sightings, Code.inner, List.mem_append, List.cons_append, List.mem_cons,
      Code.mem_sightings_iff receiver, mem_allSightings_iff notes, mem_allSightings_iff args]
    grind [Code.ownSightings]
  | .create before type args body => by
    simp only [Code.sightings, Code.inner, List.mem_append, mem_allSightings_iff before,
      mem_allSightings_iff args]
    grind [Code.ownSightings]
  | .assign target value => by
    simp only [Code.sightings, Code.inner, List.mem_append, List.cons_append, List.mem_cons,
      Code.mem_sightings_iff target, Code.mem_sightings_iff value]
    grind [Code.ownSightings]
  | .locals notes type declarators => by
    simp only [Code.sightings, Code.inner, List.mem_append, mem_allSightings_iff notes,
      mem_variableSightings_iff declarators]
    grind [Code.ownSightings]
  | .forEach notes type x parts => by
    simp only [Code.sightings, Code.inner, List.mem_append, mem_allSightings_iff notes,
      mem_allSightings_iff parts]
    grind [Code.ownSightings]
  | .delegate toThis before args => by
    simp only [Code.sightings, Code.inner, List.mem_append, mem_allSightings_iff before,
      mem_allSightings_iff args]
    grind [Code.ownSightings]
  | .declare _ => by simp [Code.sightings, Code.ownSightings, Code.inner]
  | .group parts => by
    rw [Code.sightings, mem_allSightings_iff parts, Code.inner, Code.ownSightings]
    simp

/-- What is seen in some code is what its nodes show, each by itself. -/
theorem mem_allSightings_iff {s : Sighting} : ∀ cs : List Code,
    s ∈ allSightings cs ↔ ∃ n ∈ allNodes cs, s ∈ n.ownSightings
  | [] => by simp [allSightings, allNodes]
  | c :: rest => by
    simp only [allSightings, allNodes, List.mem_append, List.cons_append, List.mem_cons,
      Code.mem_sightings_iff c, mem_allSightings_iff rest]
    grind

theorem mem_variableSightings_iff {s : Sighting} : ∀ ds : List Declarator,
    s ∈ variableSightings ds ↔ ∃ n ∈ declaratorNodes ds, s ∈ n.ownSightings
  | [] => by simp [variableSightings, declaratorNodes]
  | d :: rest => by
    simp only [variableSightings, declaratorNodes, List.mem_append,
      Declarator.mem_sightings_iff d, mem_variableSightings_iff rest]
    grind

theorem Declarator.mem_sightings_iff {s : Sighting} : ∀ d : Declarator,
    s ∈ d.sightings ↔ ∃ n ∈ d.nodes, s ∈ n.ownSightings
  | .mk _ _ notes none => by
    rw [Declarator.sightings, Declarator.nodes, mem_allSightings_iff notes]
  | .mk _ _ notes (some value) => by
    simp only [Declarator.sightings, Declarator.nodes, List.mem_append, List.mem_cons,
      mem_allSightings_iff notes, Code.mem_sightings_iff value]
    grind

end

theorem Sighting.mem_locals {ss : List Sighting} {v : Binding} :
    v ∈ Sighting.locals ss ↔ .variable v ∈ ss := by
  rw [Sighting.locals, List.mem_filterMap]
  constructor
  · rintro ⟨s, hs, heq⟩
    cases s <;> cases heq
    exact hs
  · intro hs
    exact ⟨.variable v, hs, rfl⟩

/-! ## Nodes inside nodes -/

mutual

/-- A node inside an inner node is an inner node. -/
theorem Code.inner_trans {n m : Code} (hm : m ∈ n.inner) : ∀ c : Code, n ∈ c.inner → m ∈ c.inner
  | .name _, hn | .this, hn | .declare _, hn => by simp [Code.inner] at hn
  | .access object member, hn => by
    have hobject := Code.inner_trans hm object
    grind [Code.inner]
  | .invoke x args, hn => by
    have hargs := allNodes_trans hm args
    grind [Code.inner]
  | .call receiver notes x args, hn => by
    have hreceiver := Code.inner_trans hm receiver
    have hnotes := allNodes_trans hm notes
    have hargs := allNodes_trans hm args
    grind [Code.inner]
  | .create before type args body, hn => by
    have hbefore := allNodes_trans hm before
    have hargs := allNodes_trans hm args
    grind [Code.inner]
  | .assign target value, hn => by
    have htarget := Code.inner_trans hm target
    have hvalue := Code.inner_trans hm value
    grind [Code.inner]
  | .locals notes type declarators, hn => by
    have hnotes := allNodes_trans hm notes
    have hvalues := declaratorNodes_trans hm declarators
    grind [Code.inner]
  | .forEach notes type x parts, hn => by
    have hnotes := allNodes_trans hm notes
    have hparts := allNodes_trans hm parts
    grind [Code.inner]
  | .delegate toThis before args, hn => by
    have hbefore := allNodes_trans hm before
    have hargs := allNodes_trans hm args
    grind [Code.inner]
  | .group parts, hn => by
    have hparts := allNodes_trans hm parts
    grind [Code.inner]

/-- What is inside a node of some code is a node of this code as well. -/
theorem allNodes_trans {n m : Code} (hm : m ∈ n.inner) :
    ∀ cs : List Code, n ∈ allNodes cs → m ∈ allNodes cs
  | [], hn => by simp [allNodes] at hn
  | c :: rest, hn => by
    have hfirst := Code.inner_trans hm c
    have hrest := allNodes_trans hm rest
    grind [allNodes]

/-- What is inside a node of the declarators is one of their nodes. -/
theorem declaratorNodes_trans {n m : Code} (hm : m ∈ n.inner) :
    ∀ ds : List Declarator, n ∈ declaratorNodes ds → m ∈ declaratorNodes ds
  | [], hn => by simp [declaratorNodes] at hn
  | d :: rest, hn => by
    have hfirst := Declarator.nodes_trans hm d
    have hrest := declaratorNodes_trans hm rest
    grind [declaratorNodes]

theorem Declarator.nodes_trans {n m : Code} (hm : m ∈ n.inner) :
    ∀ d : Declarator, n ∈ d.nodes → m ∈ d.nodes
  | .mk _ _ notes none, hn => by
    have hnotes := allNodes_trans hm notes
    grind [Declarator.nodes]
  | .mk _ _ notes (some value), hn => by
    have hnotes := allNodes_trans hm notes
    have hvalue := Code.inner_trans hm value
    grind [Declarator.nodes]

end

/-! ## Faces -/

/-- What a node shows of itself to the node around it. -/
inductive Face where
  | name (x : String)
  | this
  /-- A field of the current object. -/
  | own (field : String)
  /-- A creation. -/
  | fresh (type : TypeExpr)
  | other

/-- The face of a node. -/
def Code.face : Code → Face
  | .name x => .name x
  | .this => .this
  | .access .this field => .own field
  | .create _ type _ _ => .fresh type
  | _ => .other

namespace Face

/-- What is seen of an argument. -/
def argument? : Face → Option Sighting
  | .name x => some (.argument x)
  | _ => none

/-- What is seen of an object of which a member is accessed. -/
def accessed (member : String) : Face → List Sighting
  | .name x => [.receiver x member]
  | _ => []

/-- What is seen of the receiver of a call. -/
def called (method : String) : Face → List Sighting
  | .name x => [.receiver x method]
  | .own field => [.access field]
  | _ => []

/-- What an assigned expression is. -/
def source : Face → AssignSource
  | .name x => .parameter x
  | .fresh type =>
    match type.toTypeRef? with
    | some t => .construct t
    | none => .other
  | _ => .other

/-- What is seen of the target of an assignment. -/
def assigned (source : AssignSource) : Face → List Sighting
  | .name x => [.bareAssignment x source]
  | .own field => [.ownAssignment field source]
  | _ => []

/-- The type of a created instance. -/
def created? : Face → Option TypeRef
  | .fresh type => type.toTypeRef?
  | _ => none

end Face

theorem argumentSightings_eq (args : List Code) :
    argumentSightings args = (args.map Code.face).filterMap Face.argument? := by
  rw [argumentSightings, List.filterMap_map]
  congr 1
  funext c
  cases c with
  | access object member => cases object <;> rfl
  | name | this | invoke | call | create | assign | locals | forEach | delegate | declare
  | group => rfl

theorem callSightings_eq (receiver : Code) (method : String) :
    callSightings receiver method = receiver.face.called method := by
  cases receiver with
  | access object member => cases object <;> rfl
  | name | this | invoke | call | create | assign | locals | forEach | delegate | declare
  | group => rfl

theorem Code.assignSource_eq (value : Code) : value.assignSource = value.face.source := by
  cases value with
  | access object member => cases object <;> rfl
  | name | this | invoke | call | create | assign | locals | forEach | delegate | declare
  | group => rfl

theorem Code.created?_eq (value : Code) : value.created? = value.face.created? := by
  cases value with
  | access object member => cases object <;> rfl
  | name | this | invoke | call | create | assign | locals | forEach | delegate | declare
  | group => rfl

theorem assignSightings_eq (target value : Code) :
    assignSightings target value = target.face.assigned value.face.source := by
  rw [← Code.assignSource_eq]
  cases target with
  | access object member => cases object <;> rfl
  | name | this | invoke | call | create | assign | locals | forEach | delegate | declare
  | group => rfl

theorem Code.sightings_access_eq (object : Code) (member : String) :
    (Code.access object member).sightings = object.face.accessed member ++ object.sightings := by
  cases object with
  | access object member => cases object <;> rfl
  | name | this | invoke | call | create | assign | locals | forEach | delegate | declare
  | group => rfl

theorem Code.sightings_forEach_eq (notes : List Code) (type : TypeExpr) (x : String)
    (parts : List Code) :
    (Code.forEach notes type x parts).sightings
      = (type.toTypeRef?.map fun t => Sighting.variable ⟨x, t⟩).toList ++ allSightings notes
        ++ allSightings parts := by
  rw [Code.sightings]
  cases type.toTypeRef? <;> rfl

theorem Declarator.type?_eq (declared : TypeExpr) (d : Declarator) :
    d.type? declared = match declared with
      | .simple "var" => (d.value?.map Code.face).bind Face.created?
      | _ => declared.toTypeRef?.map fun t => t.arrayOf d.dimensions := by
  have hvalue : (d.value?.map Code.face).bind Face.created? = d.value?.bind Code.created? := by
    cases d.value? with
    | none => rfl
    | some value => exact value.created?_eq.symm
  rw [hvalue]
  rfl

end ClassDiagram.Java
