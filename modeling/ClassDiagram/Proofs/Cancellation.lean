import ClassDiagram.Analysis.Cancellation
import ClassDiagram.Proofs.AnalysisShape
import Mathlib.Logic.Relation

/-!
# Cancellation is all or nothing

A run either ends with what it would have come to if nobody had asked, or it ends with being
cancelled; which of the two is a matter of the answers that it gets. This file says what the
answers are. Tokens are created, copied and cancelled in any order, between runs and while
they last, and names are used again for other tokens. A token is then found cancelled exactly
if it, or one with the same flag, was cancelled before.

What it means to have the same flag is said without flags. An action hands each name over to
the next moment, a copy from the name that it was made of (`Action.origin`), and a token
created anew from nowhere. Moments of names that are linked by such steps share a flag
(`SharesFlag`). The proof follows a name back to where it came from (`root`), and one invariant
carries it: two names share a flag now if and only if they have the same root
(`shares_tokensAt_iff`). `shares_after` and `isCancelled_after` say all that a single action
can do, in terms of names alone, and the rest is by induction on the number of actions.

A run holds on to the flag of its token while names come and go. So its answers need an
invariant about the flag itself (`Marks`): at every moment its names are those with one and
the same root.
-/

namespace ClassDiagram

namespace Tokens

variable {ts : Tokens} {token copy x y : String} {f : Nat}

/-- Flags are handed out in order, and those still to come are unused. -/
structure Fresh (ts : Tokens) : Prop where
  bound : ∀ {x f}, ts.flagOf.lookup x = some f → f < ts.count
  raised : ∀ {f}, f ∈ ts.raised → f < ts.count

/-- Two tokens stand for one flag. -/
def Shares (ts : Tokens) (x y : String) : Prop :=
  x = y ∨ ∃ f, ts.flagOf.lookup x = some f ∧ ts.flagOf.lookup y = some f

/-- Two tokens share a flag if the second has the flag of the first. -/
theorem shares_iff_of_lookup (h : ts.flagOf.lookup x = some f) :
    ts.Shares x y ↔ ts.flagOf.lookup y = some f := by
  constructor
  · intro hshares
    rcases hshares with rfl | ⟨g, hx, hy⟩
    · exact h
    · rw [h] at hx
      exact Option.some.inj hx ▸ hy
  · intro hy
    exact .inr ⟨f, h, hy⟩

/-- A token is cancelled if its flag is raised. -/
theorem isCancelled_iff :
    ts.isCancelled x = true ↔ ∃ f, ts.flagOf.lookup x = some f ∧ f ∈ ts.raised := by
  unfold isCancelled
  cases ts.flagOf.lookup x with
  | none => exact ⟨nofun, nofun⟩
  | some f =>
    rw [List.contains_iff_mem]
    constructor
    · intro hmem
      exact ⟨f, rfl, hmem⟩
    · intro h
      obtain ⟨g, hg, hmem⟩ := h
      exact Option.some.inj hg ▸ hmem

/-- A token that is given a flag has it, and the others keep theirs. -/
theorem lookup_bind (flags : List (String × Nat)) :
    ((token, f) :: flags).lookup x = if x = token then some f else flags.lookup x := by
  rw [List.lookup_cons]
  by_cases h : x = token
  · rw [beq_iff_eq.mpr h, if_pos h]
  · rw [beq_eq_false_iff_ne.mpr h, if_neg h]

/-! ### A new flag -/

/-- A new token gets a flag that nobody has and that is not raised. -/
theorem Fresh.create (h : ts.Fresh) : (ts.create token).Fresh where
  bound := by
    intro x f hf
    unfold Tokens.create at hf
    rw [lookup_bind] at hf
    split at hf
    · exact Option.some.inj hf ▸ Nat.lt_succ_self _
    · exact Nat.lt_succ_of_lt (h.bound hf)
  raised := fun hf => Nat.lt_succ_of_lt (h.raised hf)

/-- A new flag is nobody else's. -/
theorem shares_create (h : ts.Fresh) :
    (ts.create token).Shares x y ↔ x = y ∨ (x ≠ token ∧ y ≠ token ∧ ts.Shares x y) := by
  have hnew : ∀ {z f}, ts.flagOf.lookup z = some f → ts.count ≠ f := by
    intro z f hf
    exact Nat.ne_of_gt (h.bound hf)
  unfold Shares create
  rw [lookup_bind, lookup_bind]
  by_cases hxy : x = y
  · exact ⟨fun _ => .inl hxy, fun _ => .inl hxy⟩
  by_cases hx : x = token
  · have hy : y ≠ token := fun hy => hxy (hx.trans hy.symm)
    rw [if_pos hx, if_neg hy]
    constructor
    · intro hshares
      obtain ⟨f, hf, hfy⟩ := hshares.resolve_left hxy
      exact absurd (Option.some.inj hf) (hnew hfy)
    · intro hshares
      exact absurd hx (hshares.resolve_left hxy).1
  by_cases hy : y = token
  · rw [if_neg hx, if_pos hy]
    constructor
    · intro hshares
      obtain ⟨f, hfx, hf⟩ := hshares.resolve_left hxy
      exact absurd (Option.some.inj hf) (hnew hfx)
    · intro hshares
      exact absurd hy (hshares.resolve_left hxy).2.1
  rw [if_neg hx, if_neg hy]
  constructor
  · intro hshares
    exact .inr ⟨hx, hy, hshares⟩
  · intro hshares
    exact (hshares.resolve_left hxy).2.2

/-- A new flag is not set. -/
theorem isCancelled_create (h : ts.Fresh) :
    (ts.create token).isCancelled x = true ↔ x ≠ token ∧ ts.isCancelled x = true := by
  rw [isCancelled_iff, isCancelled_iff]
  unfold create
  rw [lookup_bind]
  by_cases hx : x = token
  · rw [if_pos hx]
    constructor
    · intro hset
      obtain ⟨f, hf, hmem⟩ := hset
      have := h.raised hmem
      have := Option.some.inj hf
      omega
    · intro hset
      exact absurd hx hset.1
  · rw [if_neg hx]
    exact ⟨fun hset => ⟨hx, hset⟩, fun hset => hset.2⟩

/-! ### A first mention -/

/-- A token that is mentioned has its flag afterwards, and nothing else is to be seen of it. -/
theorem flag_cases (ts : Tokens) (token : String) :
    (∃ f, ts.flagOf.lookup token = some f ∧ ts.flag token = (f, ts))
      ∨ (ts.flagOf.lookup token = none ∧ ts.flag token = (ts.count, ts.create token)) := by
  unfold flag
  cases h : ts.flagOf.lookup token with
  | some f => exact .inl ⟨f, rfl, rfl⟩
  | none => exact .inr ⟨rfl, rfl⟩

/-- After its flag is asked for, a token has one. -/
theorem lookup_flag (ts : Tokens) (token : String) :
    (ts.flag token).2.flagOf.lookup token = some (ts.flag token).1 := by
  rcases ts.flag_cases token with ⟨f, hf, heq⟩ | ⟨-, heq⟩
  · rw [heq]
    exact hf
  · rw [heq]
    unfold create
    rw [lookup_bind, if_pos rfl]

/-- Asking for a flag may hand out a new one, as fresh as before. -/
theorem Fresh.flag (h : ts.Fresh) : (ts.flag token).2.Fresh := by
  rcases ts.flag_cases token with ⟨f, -, heq⟩ | ⟨-, heq⟩
  · rw [heq]
    exact h
  · rw [heq]
    exact h.create

/-- Asking for a flag changes nothing about who shares one. -/
theorem shares_flag (h : ts.Fresh) (token : String) :
    (ts.flag token).2.Shares x y ↔ ts.Shares x y := by
  rcases ts.flag_cases token with ⟨f, -, heq⟩ | ⟨hnone, heq⟩
  · rw [heq]
  · rw [heq, shares_create h]
    constructor
    · intro hshares
      rcases hshares with hxy | ⟨-, -, hshares⟩
      · exact .inl hxy
      · exact hshares
    · intro hshares
      rcases hshares with hxy | ⟨f, hfx, hfy⟩
      · exact .inl hxy
      · refine .inr ⟨?_, ?_, .inr ⟨f, hfx, hfy⟩⟩
        · intro hx
          rw [hx, hnone] at hfx
          cases hfx
        · intro hy
          rw [hy, hnone] at hfy
          cases hfy

/-- Nor about who is cancelled. -/
theorem isCancelled_flag (h : ts.Fresh) (token : String) :
    (ts.flag token).2.isCancelled x = true ↔ ts.isCancelled x = true := by
  rcases ts.flag_cases token with ⟨f, -, heq⟩ | ⟨hnone, heq⟩
  · rw [heq]
  · rw [heq, isCancelled_create h]
    refine ⟨fun hset => hset.2, fun hset => ⟨?_, hset⟩⟩
    intro hx
    obtain ⟨f, hf, -⟩ := isCancelled_iff.mp hset
    rw [hx, hnone] at hf
    cases hf

/-- A first mention leaves alone the flags that are there. -/
theorem lookup_flag_of_lt (hf : f < ts.count) (token : String) :
    (ts.flag token).2.flagOf.lookup x = some f ↔ ts.flagOf.lookup x = some f := by
  rcases ts.flag_cases token with ⟨g, -, heq⟩ | ⟨hnone, heq⟩
  · rw [heq]
  · rw [heq]
    unfold create
    rw [lookup_bind]
    by_cases hx : x = token
    · rw [if_pos hx, hx, hnone]
      exact ⟨fun hcount => absurd (Option.some.inj hcount) (Nat.ne_of_gt hf), nofun⟩
    · rw [if_neg hx]

/-- No flag is raised by asking for it. -/
theorem raised_flag (ts : Tokens) (token : String) : (ts.flag token).2.raised = ts.raised := by
  rcases ts.flag_cases token with ⟨g, -, heq⟩ | ⟨-, heq⟩
  · rw [heq]
  · rw [heq]
    rfl

/-! ### Copies and cancellation -/

/-- A copy has the flag of its token. -/
theorem Fresh.share (h : ts.Fresh) : (ts.share token copy).Fresh where
  bound := by
    intro x f hf
    unfold Tokens.share at hf
    rw [lookup_bind] at hf
    split at hf
    · exact h.flag.bound (Option.some.inj hf ▸ ts.lookup_flag token)
    · exact h.flag.bound hf
  raised := h.flag.raised

/-- Raising a flag that a token has takes no new one. -/
theorem Fresh.cancel (h : ts.Fresh) : (ts.cancel token).Fresh where
  bound := h.flag.bound
  raised := by
    intro f hf
    rcases List.mem_cons.mp hf with rfl | hold
    · exact h.flag.bound (ts.lookup_flag token)
    · exact h.flag.raised hold

/-- A copy has the flag of the token, all other names have the one they had. -/
theorem lookup_share :
    (ts.share token copy).flagOf.lookup x
      = (ts.flag token).2.flagOf.lookup (if x = copy then token else x) := by
  unfold share
  rw [lookup_bind]
  by_cases hx : x = copy
  · rw [if_pos hx, if_pos hx, lookup_flag]
  · rw [if_neg hx, if_neg hx]

/-- A copy is cancelled if its token is; everyone else stays what they are. -/
theorem isCancelled_share (h : ts.Fresh) :
    (ts.share token copy).isCancelled x = true
      ↔ ts.isCancelled (if x = copy then token else x) = true := by
  rw [← isCancelled_flag h token, isCancelled_iff, isCancelled_iff, lookup_share]
  rfl

/-- A copy shares the flag of whoever shares that of its token. -/
theorem shares_share (h : ts.Fresh) :
    (ts.share token copy).Shares x y
      ↔ ts.Shares (if x = copy then token else x) (if y = copy then token else y) := by
  rw [← shares_flag h token]
  unfold Shares
  rw [lookup_share, lookup_share]
  constructor
  · intro hshares
    rcases hshares with rfl | hflag
    · exact .inl rfl
    · exact .inr hflag
  · intro hshares
    by_cases hxy : x = y
    · exact .inl hxy
    rcases hshares with heq | hflag
    · -- of two names only one can be the copy, so both stand for the token
      have hy : (if y = copy then token else y) = token := by
        by_cases hy : y = copy
        · rw [if_pos hy]
        · rw [if_neg hy] at heq ⊢
          by_cases hx : x = copy
          · rw [if_pos hx] at heq
            exact heq.symm
          · rw [if_neg hx] at heq
            exact absurd heq hxy
      rw [heq, hy]
      exact .inr ⟨_, ts.lookup_flag token, ts.lookup_flag token⟩
    · exact .inr hflag

/-- Cancelling does not change who shares a flag. -/
theorem shares_cancel (h : ts.Fresh) : (ts.cancel token).Shares x y ↔ ts.Shares x y :=
  shares_flag h token

/-- Cancelling a token cancels those that share its flag, and no others. -/
theorem isCancelled_cancel (h : ts.Fresh) :
    (ts.cancel token).isCancelled x = true
      ↔ ts.isCancelled x = true ∨ ts.Shares token x := by
  rw [← isCancelled_flag h token, ← shares_flag h token, isCancelled_iff, isCancelled_iff]
  have hflag := ts.lookup_flag token
  constructor
  · intro hset
    obtain ⟨f, hf, hmem⟩ := hset
    rcases List.mem_cons.mp hmem with rfl | hold
    · exact .inr (.inr ⟨_, hflag, hf⟩)
    · exact .inl ⟨f, hf, hold⟩
  · intro hset
    rcases hset with ⟨f, hf, hold⟩ | rfl | ⟨f, htoken, hx⟩
    · exact ⟨f, hf, List.mem_cons_of_mem _ hold⟩
    · exact ⟨_, hflag, List.mem_cons_self⟩
    · rw [hflag] at htoken
      exact ⟨f, hx, Option.some.inj htoken ▸ List.mem_cons_self⟩

end Tokens

/-! ## Histories -/

/-- What can happen to tokens: one is created, copied or cancelled, and runs are made under
it. -/
inductive Action where
  | create (token : String)
  | clone (token copy : String)
  | cancel (token : String)
  | analyze (token : String) (decls : List ClassDecl)

namespace Action

/-- The name that had, before the action, the flag that `name` has after it. A token created
by the action has its flag from nowhere. -/
def origin : Action → String → Option String
  | .create token, name => if name = token then none else some name
  | .clone token copy, name => some (if name = copy then token else name)
  | .cancel _, name => some name
  | .analyze _ _, name => some name

/-- Whether the action is a run. -/
def isRun : Action → Bool
  | .analyze _ _ => true
  | _ => false

end Action

namespace Tokens

variable {ts : Tokens} {x y : String}

/-- The tokens after an action. -/
def after (ts : Tokens) : Action → Tokens
  | .create token => ts.create token
  | .clone token copy => ts.share token copy
  | .cancel token => ts.cancel token
  | .analyze token _ => (ts.flag token).2

/-- Flags stay fresh through any action. -/
theorem Fresh.after (h : ts.Fresh) (a : Action) : (ts.after a).Fresh := by
  cases a with
  | create token => exact h.create
  | clone token copy => exact h.share
  | cancel token => exact h.cancel
  | analyze token decls => exact h.flag

/-- A token has only one origin in an action. -/
theorem exists_origin_iff {a : Action} {x' : String} (hx : a.origin x = some x')
    {Q : String → Prop} : (∃ p, a.origin x = some p ∧ Q p) ↔ Q x' := by
  constructor
  · intro h
    obtain ⟨p, hp, hQ⟩ := h
    rw [hx] at hp
    exact Option.some.inj hp ▸ hQ
  · intro hQ
    exact ⟨x', hx, hQ⟩

/-- Names with the origins `x'` and `y'`. -/
theorem shares_origin_iff {a : Action} {x' y' : String} (hx : a.origin x = some x')
    (hy : a.origin y = some y') :
    (x = y ∨ ∃ p q, a.origin x = some p ∧ a.origin y = some q ∧ ts.Shares p q)
      ↔ ts.Shares x' y' := by
  constructor
  · intro h
    rcases h with rfl | ⟨p, q, hp, hq, hshares⟩
    · exact .inl (Option.some.inj (hx.symm.trans hy))
    · rw [hx] at hp
      rw [hy] at hq
      exact Option.some.inj hp ▸ Option.some.inj hq ▸ hshares
  · intro hshares
    exact .inr ⟨x', y', hx, hy, hshares⟩

/-- After an action two names share a flag if their origins did. -/
theorem shares_after (h : ts.Fresh) (a : Action) :
    (ts.after a).Shares x y ↔ x = y ∨ ∃ x' y',
      a.origin x = some x' ∧ a.origin y = some y' ∧ ts.Shares x' y' := by
  cases a with
  | create token =>
    refine (shares_create h).trans (or_congr_right ?_)
    unfold Action.origin
    constructor
    · intro hshares
      obtain ⟨hx, hy, hshares⟩ := hshares
      exact ⟨x, y, if_neg hx, if_neg hy, hshares⟩
    · intro hshares
      obtain ⟨x', y', hx, hy, hshares⟩ := hshares
      obtain ⟨hne, hx'⟩ := Option.ite_none_left_eq_some.mp hx
      obtain ⟨hne', hy'⟩ := Option.ite_none_left_eq_some.mp hy
      cases hx'
      cases hy'
      exact ⟨hne, hne', hshares⟩
  | clone token copy => exact (shares_share h).trans (shares_origin_iff rfl rfl).symm
  | cancel token => exact (shares_cancel h).trans (shares_origin_iff rfl rfl).symm
  | analyze token decls => exact (shares_flag h token).trans (shares_origin_iff rfl rfl).symm

/-- After an action a name is cancelled if its origin was, or if the action cancels a token
that shares a flag with its origin. -/
theorem isCancelled_after (h : ts.Fresh) (a : Action) :
    (ts.after a).isCancelled x = true ↔ ∃ x', a.origin x = some x'
      ∧ (ts.isCancelled x' = true ∨ ∃ token, a = .cancel token ∧ ts.Shares token x') := by
  cases a with
  | create token =>
    refine (isCancelled_create h).trans ?_
    by_cases hx : x = token
    · have hnone : (Action.create token).origin x = none := if_pos hx
      rw [hnone]
      exact ⟨fun hset => absurd hx hset.1, nofun⟩
    · have hsome : (Action.create token).origin x = some x := if_neg hx
      rw [exists_origin_iff hsome]
      exact ⟨fun hset => .inl hset.2, fun hset => ⟨hx, hset.resolve_right nofun⟩⟩
  | clone token copy =>
    refine (isCancelled_share h).trans ((exists_origin_iff rfl).trans ?_).symm
    exact ⟨fun hset => hset.resolve_right nofun, .inl⟩
  | cancel token =>
    refine (isCancelled_cancel h).trans ((exists_origin_iff rfl).trans ?_).symm
    refine or_congr_right ⟨fun hset => ?_, fun hshares => ⟨token, rfl, hshares⟩⟩
    obtain ⟨other, heq, hshares⟩ := hset
    exact Action.cancel.inj heq ▸ hshares
  | analyze token decls =>
    refine (isCancelled_flag h token).trans ((exists_origin_iff rfl).trans ?_).symm
    exact ⟨fun hset => hset.resolve_right nofun, .inl⟩

/-! ### Flags that are there -/

/-- A flag that is there has its names from their origins. -/
theorem lookup_after {f : Nat} (hf : f < ts.count) (a : Action) :
    (ts.after a).flagOf.lookup x = some f
      ↔ ∃ x', a.origin x = some x' ∧ ts.flagOf.lookup x' = some f := by
  cases a with
  | create token =>
    show (ts.create token).flagOf.lookup x = some f ↔ _
    unfold create
    rw [lookup_bind]
    by_cases hx : x = token
    · have hnone : (Action.create token).origin x = none := if_pos hx
      rw [if_pos hx, hnone]
      exact ⟨fun hcount => absurd (Option.some.inj hcount) (Nat.ne_of_gt hf), nofun⟩
    · have hsome : (Action.create token).origin x = some x := if_neg hx
      rw [if_neg hx, exists_origin_iff hsome]
  | clone token copy =>
    have hsome : (Action.clone token copy).origin x = some (if x = copy then token else x) := rfl
    show (ts.share token copy).flagOf.lookup x = some f ↔ _
    rw [exists_origin_iff hsome, lookup_share, lookup_flag_of_lt hf]
  | cancel token =>
    have hsome : (Action.cancel token).origin x = some x := rfl
    rw [exists_origin_iff hsome]
    exact lookup_flag_of_lt hf token
  | analyze token decls =>
    have hsome : (Action.analyze token decls).origin x = some x := rfl
    rw [exists_origin_iff hsome]
    exact lookup_flag_of_lt hf token

/-- It is set by being set, through one of its names. -/
theorem mem_raised_after {f : Nat} (hf : f < ts.count) (a : Action) :
    f ∈ (ts.after a).raised
      ↔ f ∈ ts.raised ∨ ∃ token, a = .cancel token ∧ ts.flagOf.lookup token = some f := by
  cases a with
  | create token => exact ⟨.inl, fun hset => hset.resolve_right nofun⟩
  | clone token copy =>
    show f ∈ (ts.flag token).2.raised ↔ _
    rw [raised_flag]
    exact ⟨.inl, fun hset => hset.resolve_right nofun⟩
  | cancel token =>
    show f ∈ (ts.flag token).1 :: (ts.flag token).2.raised ↔ _
    rw [List.mem_cons, raised_flag, or_comm]
    refine or_congr_right ?_
    constructor
    · intro heq
      refine ⟨token, rfl, (lookup_flag_of_lt hf token).mp ?_⟩
      rw [heq]
      exact ts.lookup_flag token
    · intro hset
      obtain ⟨other, hother, hlookup⟩ := hset
      cases hother
      rw [← lookup_flag_of_lt hf token, lookup_flag] at hlookup
      exact (Option.some.inj hlookup).symm
  | analyze token decls =>
    show f ∈ (ts.flag token).2.raised ↔ _
    rw [raised_flag]
    exact ⟨.inl, fun hset => hset.resolve_right nofun⟩

/-- Flags are never taken back. -/
theorem count_le_flag (ts : Tokens) (token : String) : ts.count ≤ (ts.flag token).2.count := by
  rcases ts.flag_cases token with ⟨f, -, heq⟩ | ⟨-, heq⟩
  · exact Nat.le_of_eq (congrArg (fun p => p.2.count) heq.symm)
  · rw [heq]
    exact Nat.le_succ _

/-- Nor are they by any action. -/
theorem count_le_after (ts : Tokens) (a : Action) : ts.count ≤ (ts.after a).count := by
  cases a with
  | create token => exact Nat.le_succ _
  | clone token copy => exact ts.count_le_flag token
  | cancel token => exact ts.count_le_flag token
  | analyze token decls => exact ts.count_le_flag token

/-- Two states that cannot be told apart by names. -/
def Alike (ts us : Tokens) : Prop :=
  (∀ x y, ts.Shares x y ↔ us.Shares x y)
    ∧ ∀ x, ts.isCancelled x = true ↔ us.isCancelled x = true

/-- States that are alike stay alike under the same action, whatever the numbers of their
flags. -/
theorem Alike.after {us : Tokens} (h : ts.Alike us) (hts : ts.Fresh) (hus : us.Fresh)
    (a : Action) : (ts.after a).Alike (us.after a) := by
  constructor
  · intro x y
    rw [shares_after hts, shares_after hus]
    simp only [h.1]
  · intro x
    rw [isCancelled_after hts, isCancelled_after hus]
    simp only [h.1, h.2]

/-- A run cannot be told from the tokens that it leaves. -/
theorem Alike.after_run {us : Tokens} (h : ts.Alike us) (hts : ts.Fresh) {a : Action}
    (ha : a.isRun = true) : (ts.after a).Alike us := by
  cases a with
  | analyze token decls =>
    exact ⟨fun x y => (shares_flag hts token).trans (h.1 x y),
      fun x => (isCancelled_flag hts token).trans (h.2 x)⟩
  | create token => cases ha
  | clone token copy => cases ha
  | cancel token => cases ha

/-- Runs leave no trace in the tokens: without them, a history leads to a state that is alike. -/
theorem Alike.foldl_after {us : Tokens} (h : ts.Alike us) (hts : ts.Fresh) (hus : us.Fresh)
    (history : List Action) :
    (history.foldl Tokens.after ts).Alike
      ((history.filter (!·.isRun)).foldl Tokens.after us) := by
  induction history generalizing ts us with
  | nil => exact h
  | cons a rest ih =>
    cases ha : a.isRun with
    | true =>
      rw [List.filter_cons_of_neg (by rw [ha]; exact nofun)]
      exact ih (h.after_run hts ha) (hts.after a) hus
    | false =>
      rw [List.filter_cons_of_pos (by rw [ha]; rfl)]
      exact ih (h.after hts hus a) (hts.after a) (hus.after a)

/-- In the beginning there is no flag at all. -/
theorem fresh_empty : empty.Fresh where
  bound := nofun
  raised := nofun

end Tokens

namespace History

variable {history : List Action}

/-- The tokens after all actions of a history. -/
def tokensAfter (history : List Action) : Tokens :=
  history.foldl Tokens.after .empty

/-- The tokens after the first `n` actions of a history. -/
def tokensAt (history : List Action) (n : Nat) : Tokens :=
  tokensAfter (history.take n)

/-- Where `name` had its flag from in the step that follows moment `n`. After the last action
nothing happens any more. -/
def originAt (history : List Action) (n : Nat) (name : String) : Option String :=
  match history[n]? with
  | some a => a.origin name
  | none => some name

/-- A name at one moment hands its flag over to a name at the next. -/
def Hands (history : List Action) (earlier later : Nat × String) : Prop :=
  later.1 = earlier.1 + 1 ∧ originAt history earlier.1 later.2 = some earlier.2

/-- Two names, each at its moment, have one flag through being created and copied. -/
def SharesFlag (history : List Action) : Nat × String → Nat × String → Prop :=
  Relation.EqvGen (Hands history)

/-- Before the moment `now` a token was cancelled that shares its flag with `held`, a name at
some moment. -/
def CancelledBefore (history : List Action) (now : Nat) (held : Nat × String) : Prop :=
  ∃ k other, k < now ∧ history[k]? = some (.cancel other)
    ∧ SharesFlag history (k, other) held

/-- What a run that was begun under `token` at the moment `start` is told when it asks at the
moment `now`. It holds on to its flag, whatever becomes of the name. -/
def told (history : List Action) (start : Nat) (token : String) (now : Nat) : Bool :=
  (tokensAt history now).raised.contains ((tokensAt history start).flag token).1

/-! ### Where a flag comes from -/

/-- Follows a name back to the moment at which its flag was new. -/
def root (history : List Action) : Nat → String → Nat × String
  | 0, name => (0, name)
  | n + 1, name =>
    match originAt history n name with
    | some name' => root history n name'
    | none => (n + 1, name)

/-- A token that comes from another one has its root. -/
theorem root_succ_of_some {n : Nat} {x y : String} (h : originAt history n x = some y) :
    root history (n + 1) x = root history n y := by
  rw [root, h]

/-- A token that comes from nowhere is a root itself. -/
theorem root_succ_of_none {n : Nat} {x : String} (h : originAt history n x = none) :
    root history (n + 1) x = (n + 1, x) := by
  rw [root, h]

/-- The root of a token is no younger than the token. -/
theorem root_fst_le (history : List Action) (n : Nat) (x : String) :
    (root history n x).1 ≤ n := by
  induction n generalizing x with
  | zero => exact Nat.le_refl 0
  | succ n ih =>
    cases h : originAt history n x with
    | some y =>
      rw [root_succ_of_some h]
      exact Nat.le_succ_of_le (ih y)
    | none => exact Nat.le_of_eq (congrArg Prod.fst (root_succ_of_none h))

/-- A token shares the flag of its root. -/
theorem sharesFlag_root (history : List Action) (n : Nat) (x : String) :
    SharesFlag history (root history n x) (n, x) := by
  induction n generalizing x with
  | zero => exact .refl _
  | succ n ih =>
    cases h : originAt history n x with
    | some y =>
      rw [root_succ_of_some h]
      exact .trans _ _ _ (ih y) (.rel _ _ ⟨rfl, h⟩)
    | none =>
      rw [root_succ_of_none h]
      exact .refl _

/-- Names share a flag if they come from the same name at the same moment. -/
theorem sharesFlag_iff {p q : Nat × String} :
    SharesFlag history p q ↔ root history p.1 p.2 = root history q.1 q.2 := by
  constructor
  · intro h
    induction h with
    | rel p q hands =>
      obtain ⟨m, x⟩ := p
      obtain ⟨n, y⟩ := q
      obtain ⟨rfl, horigin⟩ := hands
      exact (root_succ_of_some horigin).symm
    | refl p => rfl
    | symm p q _ ih => exact ih.symm
    | trans p q r _ _ ih ih' => exact ih.trans ih'
  · intro h
    have hp := sharesFlag_root history p.1 p.2
    have hq := sharesFlag_root history q.1 q.2
    rw [h] at hp
    exact .trans _ _ _ (.symm _ _ hp) hq

/-! ### What a history leaves -/

/-- The next action changes the tokens. -/
theorem tokensAt_succ_of_some {n : Nat} {a : Action} (h : history[n]? = some a) :
    tokensAt history (n + 1) = (tokensAt history n).after a := by
  unfold tokensAt tokensAfter
  rw [List.take_add_one, h]
  exact List.foldl_concat _ _ _ _

/-- After the end of the history nothing changes. -/
theorem tokensAt_succ_of_none {n : Nat} (h : history[n]? = none) :
    tokensAt history (n + 1) = tokensAt history n := by
  unfold tokensAt tokensAfter
  rw [List.take_add_one, h]
  exact congrArg _ (List.append_nil _)

/-- Flags are fresh at any time. -/
theorem fresh_tokensAt (history : List Action) (n : Nat) : (tokensAt history n).Fresh := by
  induction n with
  | zero => exact Tokens.fresh_empty
  | succ n ih =>
    cases h : history[n]? with
    | some a =>
      rw [tokensAt_succ_of_some h]
      exact ih.after a
    | none =>
      rw [tokensAt_succ_of_none h]
      exact ih

/-- Two tokens share a flag if they are the same or if those did that they come from. -/
theorem shares_tokensAt_succ {n : Nat} {x y : String} :
    (tokensAt history (n + 1)).Shares x y ↔ x = y ∨ ∃ x' y',
      originAt history n x = some x' ∧ originAt history n y = some y'
        ∧ (tokensAt history n).Shares x' y' := by
  unfold originAt
  cases h : history[n]? with
  | some a =>
    rw [tokensAt_succ_of_some h]
    exact Tokens.shares_after (fresh_tokensAt history n) a
  | none =>
    rw [tokensAt_succ_of_none h]
    constructor
    · intro hshares
      exact .inr ⟨x, y, rfl, rfl, hshares⟩
    · intro hshares
      rcases hshares with hxy | ⟨x', y', hx, hy, hshares⟩
      · exact .inl hxy
      · cases hx
        cases hy
        exact hshares

/-- A token is cancelled if the one was that it comes from, or if someone is cancelled now who
shares its flag. -/
theorem isCancelled_tokensAt_succ {n : Nat} {x : String} :
    (tokensAt history (n + 1)).isCancelled x = true ↔ ∃ x', originAt history n x = some x'
      ∧ ((tokensAt history n).isCancelled x' = true
        ∨ ∃ token, history[n]? = some (.cancel token)
          ∧ (tokensAt history n).Shares token x') := by
  unfold originAt
  cases h : history[n]? with
  | some a =>
    rw [tokensAt_succ_of_some h, Tokens.isCancelled_after (fresh_tokensAt history n) a]
    simp only [Option.some.injEq]
  | none =>
    rw [tokensAt_succ_of_none h]
    constructor
    · intro hset
      exact ⟨x, rfl, .inl hset⟩
    · intro hset
      obtain ⟨x', hx, hset⟩ := hset
      cases hx
      exact hset.resolve_right nofun

/-- Two names share a flag now if and only if they come from the same name. -/
theorem shares_tokensAt_iff {n : Nat} {x y : String} :
    (tokensAt history n).Shares x y ↔ root history n x = root history n y := by
  induction n generalizing x y with
  | zero =>
    constructor
    · intro hshares
      rcases hshares with hxy | ⟨f, hf, -⟩
      · exact congrArg (root history 0) hxy
      · cases hf
    · intro hroot
      exact .inl (Prod.mk.inj hroot).2
  | succ n ih =>
    rw [shares_tokensAt_succ]
    constructor
    · intro hshares
      rcases hshares with hxy | ⟨x', y', hx, hy, hshares⟩
      · exact congrArg (root history (n + 1)) hxy
      · rw [root_succ_of_some hx, root_succ_of_some hy]
        exact ih.mp hshares
    · intro hroot
      -- a name created in this step has a root that no older name has
      cases hx : originAt history n x with
      | none =>
        rw [root_succ_of_none hx] at hroot
        cases hy : originAt history n y with
        | none =>
          rw [root_succ_of_none hy] at hroot
          exact .inl (Prod.mk.inj hroot).2
        | some y' =>
          have hle := root_fst_le history n y'
          rw [← root_succ_of_some hy, ← hroot] at hle
          exact absurd hle (Nat.not_succ_le_self n)
      | some x' =>
        rw [root_succ_of_some hx] at hroot
        cases hy : originAt history n y with
        | none =>
          have hle := root_fst_le history n x'
          rw [hroot, root_succ_of_none hy] at hle
          exact absurd hle (Nat.not_succ_le_self n)
        | some y' =>
          rw [root_succ_of_some hy] at hroot
          exact .inr ⟨x', y', rfl, rfl, ih.mpr hroot⟩

/-- A name is cancelled if, from the moment of its root on, one with the same root was. -/
theorem isCancelled_tokensAt_iff {n : Nat} {x : String} :
    (tokensAt history n).isCancelled x = true ↔ ∃ k other, k < n
      ∧ history[k]? = some (.cancel other) ∧ root history k other = root history n x := by
  induction n generalizing x with
  | zero =>
    constructor
    · intro hset
      cases hset
    · intro hset
      obtain ⟨k, other, hk, -⟩ := hset
      exact absurd hk (Nat.not_lt_zero k)
  | succ n ih =>
    rw [isCancelled_tokensAt_succ]
    constructor
    · intro hset
      obtain ⟨x', hx, hset⟩ := hset
      rw [root_succ_of_some hx]
      rcases hset with hold | ⟨token, hnow, hshares⟩
      · obtain ⟨k, other, hk, hcancel, hroot⟩ := ih.mp hold
        exact ⟨k, other, Nat.lt_succ_of_lt hk, hcancel, hroot⟩
      · exact ⟨n, token, Nat.lt_succ_self n, hnow, shares_tokensAt_iff.mp hshares⟩
    · intro hset
      obtain ⟨k, other, hk, hcancel, hroot⟩ := hset
      have hle := root_fst_le history k other
      cases hx : originAt history n x with
      | none =>
        rw [hroot, root_succ_of_none hx] at hle
        have : n + 1 ≤ k := hle
        omega
      | some x' =>
        rw [root_succ_of_some hx] at hroot
        refine ⟨x', rfl, ?_⟩
        rcases Nat.lt_succ_iff_lt_or_eq.mp hk with hlt | rfl
        · exact .inl (ih.mpr ⟨k, other, hlt, hcancel, hroot⟩)
        · exact .inr ⟨other, hcancel, shares_tokensAt_iff.mpr hroot⟩

/-- A token has been cancelled if one with the same root has been. -/
theorem cancelledBefore_iff {now : Nat} {held : Nat × String} :
    CancelledBefore history now held ↔ ∃ k other, k < now
      ∧ history[k]? = some (.cancel other) ∧ root history k other = root history held.1 held.2 := by
  unfold CancelledBefore
  simp only [sharesFlag_iff]

/-- **What a token is found to be**: cancelled exactly if one that shares its flag was
cancelled before. -/
theorem isCancelled_iff_cancelledBefore {n : Nat} {token : String} :
    (tokensAt history n).isCancelled token = true ↔ CancelledBefore history n (n, token) := by
  rw [isCancelled_tokensAt_iff, cancelledBefore_iff]

/-- A flag that is set stays set. -/
theorem CancelledBefore.mono {m n : Nat} {p q : Nat × String} (h : CancelledBefore history m p)
    (hmn : m ≤ n) (hshares : SharesFlag history p q) : CancelledBefore history n q := by
  obtain ⟨k, other, hk, hcancel, hother⟩ := h
  exact ⟨k, other, Nat.lt_of_lt_of_le hk hmn, hcancel, .trans _ _ _ hother hshares⟩

/-! ### A run holds on to its flag -/

/-- At the moment `n` the flag `f` is the one that was new at `origin`: its names are those
that come from there, and it is set if one of them was cancelled. -/
structure Marks (history : List Action) (f : Nat) (origin : Nat × String) (n : Nat) : Prop where
  bound : f < (tokensAt history n).count
  older : origin.1 ≤ n
  lookup_iff : ∀ x, (tokensAt history n).flagOf.lookup x = some f ↔ root history n x = origin
  raised_iff : f ∈ (tokensAt history n).raised ↔ ∃ k other, k < n
    ∧ history[k]? = some (.cancel other) ∧ root history k other = origin

/-- The flag of a name. -/
theorem marks_of_lookup {n f : Nat} {x : String}
    (h : (tokensAt history n).flagOf.lookup x = some f) :
    Marks history f (root history n x) n where
  bound := (fresh_tokensAt history n).bound h
  older := root_fst_le history n x
  lookup_iff y := by
    rw [← Tokens.shares_iff_of_lookup h, shares_tokensAt_iff]
    exact eq_comm
  raised_iff := by
    rw [← isCancelled_tokensAt_iff, Tokens.isCancelled_iff]
    constructor
    · intro hset
      exact ⟨f, h, hset⟩
    · intro hset
      obtain ⟨g, hg, hset⟩ := hset
      rw [h] at hg
      exact Option.some.inj hg ▸ hset

/-- A flag that exists already is handed on along the origins of tokens. -/
theorem lookup_tokensAt_succ {n f : Nat} (hf : f < (tokensAt history n).count) {x : String} :
    (tokensAt history (n + 1)).flagOf.lookup x = some f ↔ ∃ x', originAt history n x = some x'
      ∧ (tokensAt history n).flagOf.lookup x' = some f := by
  unfold originAt
  cases h : history[n]? with
  | some a =>
    rw [tokensAt_succ_of_some h]
    exact Tokens.lookup_after hf a
  | none =>
    rw [tokensAt_succ_of_none h]
    constructor
    · intro hlookup
      exact ⟨x, rfl, hlookup⟩
    · intro hlookup
      obtain ⟨x', hx, hlookup⟩ := hlookup
      cases hx
      exact hlookup

/-- A flag that exists already is raised by cancelling a token that has it. -/
theorem mem_raised_tokensAt_succ {n f : Nat} (hf : f < (tokensAt history n).count) :
    f ∈ (tokensAt history (n + 1)).raised ↔ f ∈ (tokensAt history n).raised
      ∨ ∃ token, history[n]? = some (.cancel token)
        ∧ (tokensAt history n).flagOf.lookup token = some f := by
  cases h : history[n]? with
  | some a =>
    rw [tokensAt_succ_of_some h, Tokens.mem_raised_after hf]
    simp only [Option.some.injEq]
  | none =>
    rw [tokensAt_succ_of_none h]
    exact ⟨.inl, fun hset => hset.resolve_right nofun⟩

/-- What a flag stands for stays the same with the next action. -/
theorem Marks.succ {f n : Nat} {origin : Nat × String} (h : Marks history f origin n) :
    Marks history f origin (n + 1) where
  bound := by
    cases ha : history[n]? with
    | some a =>
      rw [tokensAt_succ_of_some ha]
      exact Nat.lt_of_lt_of_le h.bound (Tokens.count_le_after _ a)
    | none =>
      rw [tokensAt_succ_of_none ha]
      exact h.bound
  older := Nat.le_succ_of_le h.older
  lookup_iff x := by
    rw [lookup_tokensAt_succ h.bound]
    constructor
    · intro hlookup
      obtain ⟨x', hx, hlookup⟩ := hlookup
      rw [root_succ_of_some hx]
      exact (h.lookup_iff x').mp hlookup
    · intro hroot
      cases hx : originAt history n x with
      | some x' =>
        rw [root_succ_of_some hx] at hroot
        exact ⟨x', rfl, (h.lookup_iff x').mpr hroot⟩
      | none =>
        rw [root_succ_of_none hx] at hroot
        have holder := h.older
        rw [← hroot] at holder
        exact absurd holder (Nat.not_succ_le_self n)
  raised_iff := by
    rw [mem_raised_tokensAt_succ h.bound, h.raised_iff]
    constructor
    · intro hset
      rcases hset with ⟨k, other, hk, hcancel, hroot⟩ | ⟨token, hnow, hlookup⟩
      · exact ⟨k, other, Nat.lt_succ_of_lt hk, hcancel, hroot⟩
      · exact ⟨n, token, Nat.lt_succ_self n, hnow, (h.lookup_iff token).mp hlookup⟩
    · intro hset
      obtain ⟨k, other, hk, hcancel, hroot⟩ := hset
      rcases Nat.lt_succ_iff_lt_or_eq.mp hk with hlt | rfl
      · exact .inl ⟨k, other, hlt, hcancel, hroot⟩
      · exact .inr ⟨other, hcancel, (h.lookup_iff other).mpr hroot⟩

/-- **What a run is told**: that it is cancelled, exactly if one that shares the flag of its
token was cancelled before. -/
theorem told_iff_cancelledBefore {start now : Nat} {token : String} {decls : List ClassDecl}
    (hrun : history[start]? = some (.analyze token decls)) (hnow : start < now) :
    told history start token now = true ↔ CancelledBefore history now (start, token) := by
  -- the run itself is a mention of the token, which has its flag from then on
  have hlookup : (tokensAt history (start + 1)).flagOf.lookup token
      = some ((tokensAt history start).flag token).1 := by
    rw [tokensAt_succ_of_some hrun]
    exact (tokensAt history start).lookup_flag token
  have horigin : originAt history start token = some token := by
    unfold originAt
    rw [hrun]
    rfl
  have hmarks : Marks history ((tokensAt history start).flag token).1
      (root history start token) now := by
    induction hnow with
    | refl =>
      rw [← root_succ_of_some horigin]
      exact marks_of_lookup hlookup
    | step _ ih => exact ih.succ
  unfold told
  rw [List.contains_iff_mem, hmarks.raised_iff, cancelledBefore_iff]

/-- Runs leave no trace in the tokens. -/
theorem isCancelled_tokensAfter_filter (history : List Action) (token : String) :
    (tokensAfter (history.filter (!·.isRun))).isCancelled token
      = (tokensAfter history).isCancelled token := by
  have hself : Tokens.empty.Alike .empty := ⟨fun _ _ => Iff.rfl, fun _ => Iff.rfl⟩
  have halike := hself.foldl_after Tokens.fresh_empty Tokens.fresh_empty history
  exact Bool.eq_iff_iff.mpr (halike.2 token).symm

end History

namespace Analysis

open History

/-- **Cancellation is all or nothing.** Malformed declarations are complained of, whatever the
answers to the questions of a run are. On others one positive answer among those to its
questions makes the run end with being cancelled; with none it ends with the analysis that is
made when nobody asks, never with a part of it.

In any history of tokens and runs, a token is found cancelled exactly if one that shares its
flag was cancelled before, and from then on it is found so for ever, under all its names. A run
that lasts while the history goes on is told the same of the token that it was begun under.
Hence it is cancelled exactly if at one of the moments at which it asks, wherever they lie, a
token that shares the flag had been cancelled before; and so is a run that asks everything at
one moment. Earlier runs leave no trace: a run ends as if they had not been made. -/
theorem runUnder_all_or_nothing (settings : ResolverSettings) (decls : List ClassDecl) :
    (∀ e, Validation.checkAll decls = .error e →
      (∃ d ∈ decls, ∃ reason, e = .malformed d.name reason)
        ∧ ∀ cancelled, runObserving settings cancelled decls = .error e)
    ∧ (Validation.checkAll decls = .ok () →
      (∃ a, run settings decls = .ok a) ∧ ∀ cancelled : Nat → Bool,
        ((∃ i < checkCount decls, cancelled i = true) →
          runObserving settings cancelled decls = .error .cancelled)
        ∧ ((∀ i < checkCount decls, cancelled i = false) →
          runObserving settings cancelled decls = run settings decls))
    ∧ ∀ history : List Action,
      (∀ n token, (tokensAt history n).isCancelled token = true
        ↔ CancelledBefore history n (n, token))
      ∧ (∀ m n x y, m ≤ n → SharesFlag history (m, x) (n, y) →
        (tokensAt history m).isCancelled x = true → (tokensAt history n).isCancelled y = true)
      ∧ (∀ start token, history[start]? = some (.analyze token decls) →
        (∀ now, start < now →
          (told history start token now = true ↔ CancelledBefore history now (start, token)))
        ∧ (Validation.checkAll decls = .ok () → ∀ moment : Nat → Nat, (∀ i, start < moment i) →
          ((∃ i < checkCount decls, CancelledBefore history (moment i) (start, token)) →
            runObserving settings (fun i => told history start token (moment i)) decls
              = .error .cancelled)
          ∧ ((∀ i < checkCount decls, ¬CancelledBefore history (moment i) (start, token)) →
            runObserving settings (fun i => told history start token (moment i)) decls
              = run settings decls)))
      ∧ (Validation.checkAll decls = .ok () → ∀ n token,
        (CancelledBefore history n (n, token) →
          runUnder settings (tokensAt history n) token decls = .error .cancelled)
        ∧ (¬CancelledBefore history n (n, token) →
          runUnder settings (tokensAt history n) token decls = run settings decls))
      ∧ ∀ n token, runUnder settings (tokensAt history n) token decls
        = runUnder settings (tokensAfter ((history.take n).filter (!·.isRun))) token decls := by
  have hanswers : Validation.checkAll decls = .ok () → ∀ cancelled : Nat → Bool,
      ((∃ i < checkCount decls, cancelled i = true) →
        runObserving settings cancelled decls = .error .cancelled)
      ∧ ((∀ i < checkCount decls, cancelled i = false) →
        runObserving settings cancelled decls = run settings decls) := by
    intro hvalid cancelled
    constructor
    · intro hmet
      obtain ⟨i, hi, hcancelled⟩ := hmet
      exact runObserving_of_cancelled settings hvalid hi hcancelled
    · intro hcalm
      rw [runObserving_of_calm settings hvalid hcalm, run_of_valid settings hvalid]
  refine ⟨?_, ?_, fun history => ⟨?_, ?_, ?_, ?_, ?_⟩⟩
  · intro e he
    exact ⟨Validation.exists_of_checkAll_eq_error he,
      fun cancelled => runObserving_of_malformed settings cancelled he⟩
  · intro hvalid
    exact ⟨⟨_, run_of_valid settings hvalid⟩, hanswers hvalid⟩
  · intro n token
    exact isCancelled_iff_cancelledBefore
  · intro m n x y hmn hshares hset
    exact isCancelled_iff_cancelledBefore.mpr
      ((isCancelled_iff_cancelledBefore.mp hset).mono hmn hshares)
  · intro start token hrun
    have htold : ∀ {now}, start < now →
        (told history start token now = true ↔ CancelledBefore history now (start, token)) :=
      told_iff_cancelledBefore hrun
    refine ⟨fun now => htold, fun hvalid moment hmoment => ⟨fun hmet => ?_, fun hcalm => ?_⟩⟩
    · obtain ⟨i, hi, hbefore⟩ := hmet
      exact (hanswers hvalid _).1 ⟨i, hi, (htold (hmoment i)).mpr hbefore⟩
    · refine (hanswers hvalid _).2 fun i hi => Bool.eq_false_iff.mpr fun hset => ?_
      exact hcalm i hi ((htold (hmoment i)).mp hset)
  · intro hvalid n token
    refine ⟨fun hbefore => ?_, fun hcalm => ?_⟩
    · exact (hanswers hvalid _).1
        ⟨0, Nat.succ_pos _, isCancelled_iff_cancelledBefore.mpr hbefore⟩
    · refine (hanswers hvalid _).2 fun _ _ => Bool.eq_false_iff.mpr fun hset => ?_
      exact hcalm (isCancelled_iff_cancelledBefore.mp hset)
  · intro n token
    unfold runUnder
    rw [isCancelled_tokensAfter_filter]
    rfl

/-- A copy is cancelled while a run lasts under the token that it was copied from; then a new
token is created under the old name. The run is cancelled as soon as it asks again, and a run
under the new token is not. -/
theorem runUnder_all_or_nothing_copy :
    let room : List ClassDecl := [{ name := "Room", kind := .class }]
    let history : List Action :=
      [.create "a", .clone "a" "b", .analyze "a" room, .cancel "b", .create "a"]
    runObserving {} (fun i => told history 2 "a" (3 + 2 * i)) room = .error .cancelled
      ∧ runUnder {} (tokensAt history 3) "a" room = run {} room
      ∧ runUnder {} (tokensAt history 4) "a" room = .error .cancelled
      ∧ runUnder {} (tokensAt history 5) "a" room = run {} room := by
  intro room history
  have hvalid : Validation.checkAll room = .ok () := rfl
  obtain ⟨-, -, hhistory⟩ := runUnder_all_or_nothing {} room
  obtain ⟨hfound, -, hasked, hruns, -⟩ := hhistory history
  obtain ⟨htold, hasked⟩ := hasked 2 "a" rfl
  refine ⟨?_, ?_, ?_, ?_⟩
  · refine (hasked hvalid (3 + 2 * ·) fun i => by omega).1 ⟨1, by decide, ?_⟩
    exact (htold 5 (by decide)).mp (by decide)
  · exact (hruns hvalid 3 "a").2 fun h => absurd ((hfound 3 "a").mpr h) (by decide)
  · exact (hruns hvalid 4 "a").1 ((hfound 4 "a").mp (by decide))
  · exact (hruns hvalid 5 "a").2 fun h => absurd ((hfound 5 "a").mpr h) (by decide)

end Analysis

end ClassDiagram
