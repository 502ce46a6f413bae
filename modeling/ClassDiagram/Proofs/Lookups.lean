import ClassDiagram.Proofs.Consultation

/-!
# Every signature is worked out once

To answer a request a resolver looks types up: the type it is asked for and, if nothing is
remembered for that one, the parts it has to know. `lookups` writes these down in their
order, each with what the memo said at that moment, and knows nothing of the two counters.
The record accounts for all that a run does to the memo (`Memo.Accounted`): the hits are the
lookups that were answered from memory, the misses the others, and the signatures that came
into the memo are those of the misses, each of them new and none of them twice.

The point is what happens between a miss and the moment its outcome is remembered. The
lookups of the parts run in between, and they must not put anything under the signature
that is being worked out, whatever names occur in the type. They cannot, because they are
lookups of parts (`lookups_parts`), and a part is written shorter than the whole.

`recallType_makes` says so of one request, by recursion on the type, and `serve_accounted` of
any sequence of requests. As the memo only grows, a type that has been asked for once is a
hit from then on (`serve_worksOutOnce`).
-/

namespace ClassDiagram

open TypeRef (Encloses)

/-! ## The record of a run -/

/-- One lookup: the type that is looked up, and whether its signature has an outcome in
memory. -/
structure Lookup where
  type : TypeRef
  known : Bool
  deriving Inhabited, Repr

/-- The signatures that have to be worked out, in the order of their lookups. -/
def workedOut (record : List Lookup) : List String :=
  (record.filter fun l => !l.known).map (·.type.signature)

@[simp] theorem workedOut_nil : workedOut [] = [] := rfl

@[simp] theorem workedOut_cons_known (t : TypeRef) (record : List Lookup) :
    workedOut (⟨t, true⟩ :: record) = workedOut record := rfl

@[simp] theorem workedOut_cons_new (t : TypeRef) (record : List Lookup) :
    workedOut (⟨t, false⟩ :: record) = t.signature :: workedOut record := rfl

@[simp] theorem workedOut_append (a b : List Lookup) :
    workedOut (a ++ b) = workedOut a ++ workedOut b := by
  simp [workedOut]

/-- What has been worked out has been looked up under its key. -/
theorem exists_of_mem_workedOut {record : List Lookup} {key : String}
    (h : key ∈ workedOut record) : ∃ l ∈ record, l.type.signature = key := by
  obtain ⟨l, hl, hkey⟩ := List.mem_map.mp h
  exact ⟨l, List.mem_of_mem_filter hl, hkey⟩

/-- Every lookup is answered from memory or worked out. -/
theorem countP_known_add_length_workedOut (record : List Lookup) :
    record.countP (·.known) + (workedOut record).length = record.length := by
  induction record with
  | nil => rfl
  | cons l rest ih =>
    obtain ⟨t, known⟩ := l
    cases known with
    | true =>
      rw [List.countP_cons_of_pos rfl, workedOut_cons_known, List.length_cons]
      omega
    | false =>
      rw [List.countP_cons_of_neg Bool.false_ne_true, workedOut_cons_new, List.length_cons,
        List.length_cons]
      omega

/-- The lookups of a request that remembers under the signature of `t`, if those of its
parts are `parts`. -/
def lookedUp (t : TypeRef) (parts : Memo → List Lookup) (m : Memo) : List Lookup :=
  match m.slots[t.signature]? with
  | some _ => [⟨t, true⟩]
  | none => ⟨t, false⟩ :: parts m.miss

namespace Scope

mutual

/-- The lookups that a request for a type comes to, its own first. -/
def lookups (s : Scope) : TypeRef → Memo → List Lookup
  | .array element => lookedUp (.array element) (s.lookups element)
  | .named name args =>
    lookedUp (.named name args)
      (match s.role name with
        | .leaf _ => fun _ => []
        | .mapLike => s.lookupsOfSides args
        | .wrapper _ _ => s.lookupsOfElement args)

/-- The lookups for the two sides of a map. If the key cannot be resolved, the value is
not looked up. -/
def lookupsOfSides (s : Scope) : List TypeRef → Memo → List Lookup
  | [key, value], m =>
    s.lookups key m ++
      match s.recallType key m with
      | (.error _, _) => []
      | (.ok _, m') => s.lookups value m'
  | _, _ => []

/-- The lookups for the last argument of a container. -/
def lookupsOfElement (s : Scope) : List TypeRef → Memo → List Lookup
  | [], _ => []
  | [element], m => s.lookups element m
  | _ :: next :: rest, m => s.lookupsOfElement (next :: rest) m

end

/-- A type without arguments has no parts. -/
theorem lookups_plain (s : Scope) (name : String) :
    s.lookups (.plain name) = lookedUp (.plain name) fun _ => [] := by
  rw [TypeRef.plain, lookups]
  cases s.role name with
  | leaf _ => rfl
  | mapLike => rfl
  | wrapper _ _ => rfl

/-- The lookups of requests that are served one after the other. -/
def lookupsServing (s : Scope) : List (TypeRef × String) → Memo → List Lookup
  | [], _ => []
  | (t, _) :: rest, m => s.lookups t m ++ s.lookupsServing rest (s.recallType t m).2

end Scope

/-! ## Only parts are looked up on the way -/

/-- Looking up a type is one lookup, and those of its parts if it is not known yet. -/
theorem mem_lookedUp {t : TypeRef} {parts : Memo → List Lookup} {m : Memo} {l : Lookup}
    (h : l ∈ lookedUp t parts m) : l.type = t ∨ l ∈ parts m.miss := by
  unfold lookedUp at h
  split at h
  · exact .inl (by rw [List.mem_singleton.mp h])
  · rcases List.mem_cons.mp h with rfl | hparts
    · exact .inl rfl
    · exact .inr hparts

/-- Lookups of parts of `t` only. -/
def OfParts (t : TypeRef) (parts : Memo → List Lookup) : Prop :=
  ∀ m, ∀ l ∈ parts m, Relation.TransGen Encloses t l.type

theorem ofParts_nil (t : TypeRef) : OfParts t fun _ => [] :=
  fun _ _ h => nomatch h

/-- What a request looks up is its type or one of the parts. -/
theorem OfParts.lookedUp {t : TypeRef} {parts : Memo → List Lookup} (h : OfParts t parts)
    (m : Memo) : ∀ l ∈ lookedUp t parts m, Relation.ReflTransGen Encloses t l.type := by
  intro l hl
  rcases mem_lookedUp hl with hself | hpart
  · rw [hself]
  · exact (h _ l hpart).to_reflTransGen

namespace Scope

variable (s : Scope)

mutual

/-- A type is looked up for nothing but itself and what is inside it. -/
theorem lookups_parts : ∀ (t : TypeRef) (m : Memo), ∀ l ∈ s.lookups t m,
    Relation.ReflTransGen Encloses t l.type
  | .array element => by
    rw [lookups]
    refine OfParts.lookedUp fun m l hl => ?_
    exact .head' (.element element) (lookups_parts element m l hl)
  | .named name args => by
    rw [lookups]
    refine OfParts.lookedUp ?_
    cases s.role name with
    | leaf _ => exact ofParts_nil _
    | mapLike => exact lookupsOfSides_parts args fun a ha => .argument ha
    | wrapper _ _ => exact lookupsOfElement_parts args fun a ha => .argument ha

/-- The sides of a pair are parts of the type. -/
theorem lookupsOfSides_parts {t : TypeRef} : ∀ args : List TypeRef,
    (∀ a ∈ args, Encloses t a) → OfParts t (s.lookupsOfSides args)
  | [], _ => ofParts_nil t
  | [_], _ => ofParts_nil t
  | _ :: _ :: _ :: _, _ => ofParts_nil t
  | [key, value], h => by
    intro m l hl
    rw [lookupsOfSides] at hl
    rcases List.mem_append.mp hl with hkey | hvalue
    · exact .head' (h key (by simp)) (lookups_parts key m l hkey)
    · split at hvalue
      · cases hvalue
      next m' _ => exact .head' (h value (by simp)) (lookups_parts value m' l hvalue)

/-- So is the element of a collection. -/
theorem lookupsOfElement_parts {t : TypeRef} : ∀ args : List TypeRef,
    (∀ a ∈ args, Encloses t a) → OfParts t (s.lookupsOfElement args)
  | [], _ => ofParts_nil t
  | [element], h => by
    intro m l hl
    rw [lookupsOfElement] at hl
    exact .head' (h element List.mem_cons_self) (lookups_parts element m l hl)
  | _ :: next :: rest, h => by
    intro m l hl
    rw [lookupsOfElement] at hl
    exact lookupsOfElement_parts (next :: rest) (fun a ha => h a (List.mem_cons_of_mem _ ha))
      m l hl

end

end Scope

/-- Nothing is worked out under the signature of a type on behalf of its parts. -/
theorem signature_notMem_workedOut {t : TypeRef} {record : List Lookup}
    (h : ∀ l ∈ record, Relation.TransGen Encloses t l.type) :
    t.signature ∉ workedOut record := by
  intro hmem
  obtain ⟨l, hl, hkey⟩ := exists_of_mem_workedOut hmem
  have hshorter := (TypeRef.chars_infix_of_transGen (h l hl)).2
  have hchars : l.type.chars = t.chars := String.ofList_inj.mp hkey
  rw [hchars] at hshorter
  exact Nat.lt_irrefl _ hshorter

/-! ## The record accounts for the memo -/

/-- The record accounts for the way from the memo `m` to the memo `m'`: the hits and the
misses are counted, and every signature that is worked out is new and comes into the memo
once. -/
structure Memo.Accounted (m : Memo) (record : List Lookup) (m' : Memo) : Prop where
  hits : m'.hits = m.hits + record.countP (·.known)
  misses : m'.misses = m.misses + (workedOut record).length
  mem : ∀ key, key ∈ m'.slots ↔ key ∈ m.slots ∨ key ∈ workedOut record
  fresh : ∀ key ∈ workedOut record, key ∉ m.slots
  nodup : (workedOut record).Nodup

namespace Memo

/-- Remembering an answer adds one key at most. -/
theorem mem_slots_remember (m : Memo) (key : String) (slot : Slot) (k : String) :
    k ∈ (m.remember key slot).slots ↔ key = k ∨ k ∈ m.slots := by
  rw [remember, Std.HashMap.mem_insertIfNew, beq_iff_eq]

/-- Doing nothing is accounted for by no lookup. -/
theorem Accounted.refl (m : Memo) : m.Accounted [] m where
  hits := rfl
  misses := rfl
  mem key := by simp
  fresh key h := nomatch h
  nodup := List.nodup_nil

/-- Records of lookups can be put together. -/
theorem Accounted.trans {m₁ m₂ m₃ : Memo} {a b : List Lookup} (ha : m₁.Accounted a m₂)
    (hb : m₂.Accounted b m₃) : m₁.Accounted (a ++ b) m₃ where
  hits := by rw [hb.hits, ha.hits, List.countP_append, Nat.add_assoc]
  misses := by
    rw [hb.misses, ha.misses, workedOut_append, List.length_append, Nat.add_assoc]
  mem key := by rw [hb.mem, ha.mem, workedOut_append, List.mem_append, or_assoc]
  fresh key h := by
    rw [workedOut_append, List.mem_append] at h
    rcases h with h | h
    · exact ha.fresh key h
    · exact fun hold => hb.fresh key h ((ha.mem key).mpr (.inl hold))
  nodup := by
    rw [workedOut_append, List.nodup_append]
    refine ⟨ha.nodup, hb.nodup, fun key hkey again hagain heq => ?_⟩
    exact hb.fresh again hagain ((ha.mem again).mpr (.inr (heq ▸ hkey)))

/-- A hit changes nothing but its counter. -/
theorem accounted_hit (m : Memo) (t : TypeRef) : m.Accounted [⟨t, true⟩] m.hit where
  hits := rfl
  misses := rfl
  mem key := by
    rw [workedOut_cons_known, workedOut_nil]
    simp [hit]
  fresh key h := nomatch h
  nodup := List.nodup_nil

/-- A miss is counted, its parts are looked up, and then its outcome is remembered. That
the signature is still new by then is owed to the parts. -/
theorem Accounted.remember {m m' : Memo} {t : TypeRef} {record : List Lookup}
    (h : m.miss.Accounted record m') (hnew : t.signature ∉ m.slots)
    (hparts : t.signature ∉ workedOut record) (slot : Slot) :
    m.Accounted (⟨t, false⟩ :: record) (m'.remember t.signature slot) where
  hits := by
    rw [List.countP_cons_of_neg Bool.false_ne_true]
    exact h.hits
  misses := by
    have hcount : m'.misses = m.misses + 1 + (workedOut record).length := h.misses
    show m'.misses = _
    rw [hcount, workedOut_cons_new, List.length_cons]
    omega
  mem key := by
    have hmem : key ∈ m'.slots ↔ key ∈ m.slots ∨ key ∈ workedOut record := h.mem key
    rw [mem_slots_remember, hmem, workedOut_cons_new, List.mem_cons, @eq_comm _ key]
    exact or_left_comm
  fresh key hkey := by
    rcases List.mem_cons.mp hkey with rfl | hkey
    · exact hnew
    · exact h.fresh key hkey
  nodup := List.nodup_cons.mpr ⟨hparts, h.nodup⟩

/-- A memo that started with nothing holds what was worked out, and nothing else. -/
theorem Accounted.mem_workedOut_iff {m : Memo} {record : List Lookup}
    (h : empty.Accounted record m) (key : String) : key ∈ workedOut record ↔ key ∈ m.slots := by
  have hnone : key ∉ empty.slots := Std.HashMap.not_mem_empty
  rw [h.mem, or_iff_right hnone]

/-- A list that has every key once tells how many there are. -/
theorem size_eq_length {m : Memo} {keys : List String} (hnodup : keys.Nodup)
    (hmem : ∀ key, key ∈ keys ↔ key ∈ m.slots) : m.slots.size = keys.length := by
  rw [← Std.HashMap.length_keys]
  refine List.Perm.length_eq ?_
  refine (List.perm_ext_iff_of_nodup Std.HashMap.nodup_keys hnodup).mpr fun key => ?_
  rw [Std.HashMap.mem_keys, hmem]

/-- From the empty memo on, every miss has left a slot. -/
theorem Accounted.misses_eq_size {m : Memo} {record : List Lookup}
    (h : empty.Accounted record m) : m.misses = m.slots.size := by
  rw [size_eq_length h.nodup h.mem_workedOut_iff, h.misses]
  exact Nat.zero_add _

/-- Every lookup is a hit or a miss. -/
theorem Accounted.hits_add_misses {m : Memo} {record : List Lookup}
    (h : empty.Accounted record m) : m.hits + m.misses = record.length := by
  have hhits : m.hits = record.countP (·.known) := h.hits.trans (Nat.zero_add _)
  have hmisses : m.misses = (workedOut record).length := h.misses.trans (Nat.zero_add _)
  rw [hhits, hmisses, countP_known_add_length_workedOut]

end Memo

/-- A computation on the memo whose lookups are these. -/
def Remembering.Makes {α : Type} (x : Remembering α) (record : Memo → List Lookup) : Prop :=
  ∀ m : Memo, m.Accounted (record m) (x m).2

namespace Remembering

theorem bind_apply {α β : Type} (x : Remembering α) (f : α → Remembering β) (m : Memo) :
    (x >>= f) m = f (x m).1 (x m).2 := rfl

/-- An answer without a question makes no lookup. -/
theorem makes_pure {α : Type} (a : α) : Makes (pure a) fun _ => [] :=
  fun m => Memo.Accounted.refl m

/-- What comes after the last lookup leaves the memo as it is. -/
theorem Makes.leaves {α β : Type} {x : Remembering α} {f : α → Remembering β}
    {record : Memo → List Lookup} (hx : Makes x record) (hf : ∀ a m, (f a m).2 = m) :
    Makes (x >>= f) record := by
  intro m
  rw [bind_apply, hf]
  exact hx m

/-- What is made of an answer needs no further lookup. -/
theorem Makes.map {α β : Type} {x : Remembering α} {record : Memo → List Lookup}
    (hx : Makes x record) (f : α → β) : Makes (x >>= fun a => pure (f a)) record :=
  hx.leaves fun _ _ => rfl

/-- Remembering makes one lookup more than working the type out, if that takes lookups of
its parts only. -/
theorem Makes.remembered {t : TypeRef} {compute : Remembering Slot}
    {parts : Memo → List Lookup} (hc : Makes compute parts) (hparts : OfParts t parts) :
    Makes (remembered t.signature compute) (lookedUp t parts) := by
  intro m
  unfold lookedUp
  cases h : m.slots[t.signature]? with
  | some slot =>
    rw [remembered_of_some h]
    exact m.accounted_hit t
  | none =>
    have hnew : t.signature ∉ m.slots := by
      rw [Std.HashMap.mem_iff_isSome_getElem?, h]
      exact Bool.false_ne_true
    rw [remembered_of_none h]
    exact (hc m.miss).remember hnew (signature_notMem_workedOut (hparts m.miss)) _

end Remembering

namespace Scope

open Remembering

variable (s : Scope)

mutual

/-- One request. -/
theorem recallType_makes : ∀ t : TypeRef, (s.recallType t).Makes (s.lookups t)
  | .array element => by
    rw [recallType, lookups]
    refine ((recallType_makes element).map _).remembered fun m l hl => ?_
    exact .head' (.element element) (s.lookups_parts element m l hl)
  | .named name args => by
    rw [recallType, lookups]
    cases s.role name with
    | leaf outcome => exact (makes_pure outcome).remembered (ofParts_nil _)
    | mapLike =>
      exact (recallSides_makes args).remembered
        (s.lookupsOfSides_parts args fun a ha => .argument ha)
    | wrapper w transparent =>
      exact (recallElement_makes w transparent args).remembered
        (s.lookupsOfElement_parts args fun a ha => .argument ha)

/-- The sides of a pair are looked up one after the other. -/
theorem recallSides_makes : ∀ args : List TypeRef,
    (s.recallSides args).Makes (s.lookupsOfSides args)
  | [] => makes_pure _
  | [_] => makes_pure _
  | _ :: _ :: _ :: _ => makes_pure _
  | [key, value] => by
    intro m
    rw [recallSides, lookupsOfSides, bind_apply]
    refine (recallType_makes key m).trans ?_
    -- the value is looked up in the memo that the key left, if the key could be resolved
    obtain ⟨slot, m'⟩ := s.recallType key m
    cases slot with
    | error name => exact Memo.Accounted.refl m'
    | ok k => exact (recallType_makes value).leaves (fun v _ => by cases v <;> rfl) m'

/-- The element of a collection is looked up if it is alone. -/
theorem recallElement_makes (w : Wrapper) (transparent : Bool) : ∀ args : List TypeRef,
    (s.recallElement w transparent args).Makes (s.lookupsOfElement args)
  | [] => makes_pure _
  | [element] => by
    rw [recallElement]
    exact (recallType_makes element).map _
  | _ :: next :: rest => by
    rw [recallElement]
    exact recallElement_makes w transparent (next :: rest)

end

/-! ## A run of requests -/

/-- A request made on behalf of an entity does to the memo what the request does. -/
theorem run_resolveFor_remembering (t : TypeRef) (entity : String) (m : Memo) :
    ((Resolver.remembering s).resolveFor entity t).run.run m
      = ((s.recallType t m).1.mapError (.unresolvedType entity), (s.recallType t m).2) := by
  rw [Resolver.run_resolveFor]
  rfl

/-- Requests are served one after the other with the memo that the ones before them leave. -/
theorem serve_cons (t : TypeRef) (entity : String) (rest : List (TypeRef × String)) (m : Memo) :
    s.serve ((t, entity) :: rest) m
      = ((s.recallType t m).1.mapError (.unresolvedType entity), (s.recallType t m).2)
        :: s.serve rest (s.recallType t m).2 := by
  rw [serve, run_resolveFor_remembering]

/-- Every request is served, from the memo that the requests before it left. -/
theorem exists_serve_getElem? : ∀ (requests : List (TypeRef × String)) (m : Memo) {i : Nat}
    {t : TypeRef} {entity : String}, requests[i]? = some (t, entity) →
      ∃ m' : Memo, (s.serve requests m)[i]?
        = some ((s.recallType t m').1.mapError (.unresolvedType entity), (s.recallType t m').2)
  | [], _, _, _, _, hi => by simp at hi
  | (t₀, entity₀) :: rest, m, i, t, entity, hi => by
    rw [serve_cons]
    cases i with
    | zero =>
      obtain ⟨rfl, rfl⟩ : t₀ = t ∧ entity₀ = entity := by simpa using hi
      exact ⟨m, rfl⟩
    | succ i => exact exists_serve_getElem? rest _ hi

/-- The record of a run up to any of its requests. -/
theorem serve_accounted : ∀ (requests : List (TypeRef × String)) (m : Memo) {i : Nat}
    {answer : Except AnalysisError Resolution} {memo : Memo},
      (s.serve requests m)[i]? = some (answer, memo) →
        m.Accounted (s.lookupsServing (requests.take (i + 1)) m) memo
  | [], _, _, _, _, hi => by simp [serve] at hi
  | (t, entity) :: rest, m, i, answer, memo, hi => by
    rw [serve_cons] at hi
    rw [List.take_succ_cons, lookupsServing]
    refine (s.recallType_makes t m).trans ?_
    cases i with
    | zero =>
      obtain ⟨-, rfl⟩ := Prod.mk.inj (Option.some.inj hi)
      rw [List.take_zero, lookupsServing]
      exact Memo.Accounted.refl _
    | succ i => exact serve_accounted rest _ hi

/-- What is remembered when a run begins is remembered after each of its requests. -/
theorem serve_extends : ∀ (requests : List (TypeRef × String)) (m : Memo) {j : Nat}
    {answer : Except AnalysisError Resolution} {memo : Memo},
      (s.serve requests m)[j]? = some (answer, memo) → m.Extends memo
  | [], _, _, _, _, hj => by simp [serve] at hj
  | (t, entity) :: rest, m, j, answer, memo, hj => by
    rw [serve_cons] at hj
    have hfirst : m.Extends (s.recallType t m).2 := s.recallType_extends t m
    cases j with
    | zero =>
      obtain ⟨-, rfl⟩ := Prod.mk.inj (Option.some.inj hj)
      exact hfirst
    | succ j => exact hfirst.trans (serve_extends rest _ hj)

/-- And what is remembered after one request is remembered after every later one. -/
theorem serve_extends_of_le : ∀ (requests : List (TypeRef × String)) (m : Memo) {i j : Nat}
    {answer answer' : Except AnalysisError Resolution} {memo later : Memo}, i ≤ j →
      (s.serve requests m)[i]? = some (answer, memo) →
      (s.serve requests m)[j]? = some (answer', later) → memo.Extends later
  | [], _, _, _, _, _, _, _, _, hi, _ => by simp [serve] at hi
  | (t, entity) :: rest, m, i, j, answer, answer', memo, later, hij, hi, hj => by
    rw [serve_cons] at hi hj
    cases j with
    | zero =>
      obtain rfl : i = 0 := Nat.le_zero.mp hij
      obtain ⟨-, rfl⟩ := Prod.mk.inj (Option.some.inj (hi.symm.trans hj))
      exact Memo.Extends.refl memo
    | succ j =>
      cases i with
      | zero =>
        obtain ⟨-, rfl⟩ := Prod.mk.inj (Option.some.inj hi)
        exact s.serve_extends rest _ hj
      | succ i => exact serve_extends_of_le rest _ (Nat.le_of_succ_le_succ hij) hi hj

/-- An array and a name that is written like it are looked up as one type. -/
theorem lookupsServing_alike (name : String) (hub panel : String) :
    s.lookupsServing [(.array (.plain name), hub), (.plain (name ++ "[]"), panel)] .empty
      = [⟨.array (.plain name), false⟩, ⟨.plain name, false⟩, ⟨.plain (name ++ "[]"), true⟩] := by
  have hempty : ∀ key : String, Memo.empty.slots[key]? = none :=
    fun _ => Std.HashMap.getElem?_empty
  have harray : s.lookups (.array (.plain name)) .empty
      = [⟨.array (.plain name), false⟩, ⟨.plain name, false⟩] := by
    rw [lookups, lookups_plain, lookedUp, hempty]
    show _ :: lookedUp (.plain name) (fun _ => []) Memo.empty.miss = _
    rw [lookedUp, show Memo.empty.miss.slots[_]? = none from hempty _]
  have hsignature : (TypeRef.array (.plain name)).signature
      = (TypeRef.plain (name ++ "[]")).signature := by
    simp [TypeRef.signature]
  have hslot := s.recallType_installs (.array (.plain name)) .empty
  rw [hsignature] at hslot
  rw [lookupsServing, lookupsServing, lookupsServing, harray, lookups_plain, lookedUp, hslot]
  rfl

/-- **Every signature is worked out once and never replaced.** Whatever is known, however
unknown types are treated and whatever the names in the types are: when one resolver that
starts with nothing remembered has served the `i`-th of any sequence of requests, the misses
are as many as the keys of the memo, and hits and misses together are as many as the lookups
made so far, those of parts included. No signature was worked out twice, and those that were
worked out are the keys. At any time from then on every key has the outcome it has now, and
the same request made again is answered as it was, at the cost of one hit. -/
theorem serve_worksOutOnce (s : Scope) (requests : List (TypeRef × String)) (i : Nat)
    (t : TypeRef) (entity : String) (hi : requests[i]? = some (t, entity)) :
    ∃ answer, ∃ memo : Memo, (s.serve requests .empty)[i]? = some (answer, memo)
      ∧ memo.misses = memo.slots.size
      ∧ memo.hits + memo.misses = (s.lookupsServing (requests.take (i + 1)) .empty).length
      ∧ (workedOut (s.lookupsServing (requests.take (i + 1)) .empty)).Nodup
      ∧ (∀ key, key ∈ workedOut (s.lookupsServing (requests.take (i + 1)) .empty)
          ↔ key ∈ memo.slots)
      ∧ ∀ (j : Nat) answer' (later : Memo), i ≤ j →
          (s.serve requests .empty)[j]? = some (answer', later) →
          (∀ (key : String) (slot : Slot),
            memo.slots[key]? = some slot → later.slots[key]? = some slot)
          ∧ ((Resolver.remembering s).resolveFor entity t).run.run later
              = (answer, { later with hits := later.hits + 1 }) := by
  obtain ⟨m, hserved⟩ := s.exists_serve_getElem? requests .empty hi
  have haccounted := s.serve_accounted requests .empty hserved
  refine ⟨_, _, hserved, haccounted.misses_eq_size, haccounted.hits_add_misses,
    haccounted.nodup, haccounted.mem_workedOut_iff, ?_⟩
  intro j answer' later hij hlater
  have hextends := s.serve_extends_of_le requests .empty hij hserved hlater
  refine ⟨hextends, ?_⟩
  -- the answer has been in the memo since the request was served
  have hslot := hextends _ _ (s.recallType_installs t m)
  rw [run_resolveFor_remembering, s.recallType_of_slot hslot]
  rfl

/-- An array of rooms, and then a name that is written like it: two signatures are worked
out, and the name is answered from memory, then and whenever it is asked for again. -/
theorem serve_worksOutOnce_alike :
    ∃ answer, ∃ memo : Memo,
      (Scope.serve ⟨.empty, { strict := true }⟩
        [(.array (.plain "Room"), "Hub"), (.plain "Room[]", "Panel")] .empty)[1]?
          = some (answer, memo)
      ∧ memo.misses = 2 ∧ memo.hits = 1
      ∧ ((Resolver.remembering ⟨.empty, { strict := true }⟩).resolveFor "Panel"
          (.plain "Room[]")).run.run memo = (answer, { memo with hits := memo.hits + 1 }) := by
  obtain ⟨answer, memo, hserved, hsize, hcount, hnodup, hmem, hlater⟩ :=
    serve_worksOutOnce ⟨.empty, { strict := true }⟩
      [(.array (.plain "Room"), "Hub"), (.plain "Room[]", "Panel")] 1 _ _ rfl
  have hrecord := lookupsServing_alike ⟨.empty, { strict := true }⟩ "Room" "Hub" "Panel"
  rw [show "Room" ++ "[]" = "Room[]" from rfl] at hrecord
  rw [List.take_of_length_le (by decide), hrecord] at hcount hnodup hmem
  have hmisses : memo.misses = 2 := hsize.trans (Memo.size_eq_length hnodup hmem)
  refine ⟨answer, memo, hserved, hmisses, ?_, (hlater 1 answer memo (Nat.le_refl 1) hserved).2⟩
  rw [hmisses] at hcount
  exact Nat.add_right_cancel hcount

end Scope

end ClassDiagram
