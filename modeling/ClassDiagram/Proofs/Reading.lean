import ClassDiagram.Java.Parser

/-!
# What a parser can read

`Reads all P p` says that a parser `p`, set on the tokens of a file at any place, answers only
with something that has the property `P`, and leaves a rest of the tokens that it was given.
There is one lemma for each way to put parsers together, so that what a rule of the grammar
reads follows from what its parts read.

A parser may well fail; nothing is said about when it does.
-/

namespace ClassDiagram.Java

/-- Whatever `p` reads of the tokens `all`, from any place on, has the property `P`. What it
leaves is a rest of the tokens before it. -/
structure Parser.Reads {α : Type} (all : List Token) (P : α → Prop) (p : Parser α) : Prop where
  of_read : ∀ {ts a rest}, ts <:+ all → p ts = some (a, rest) → rest <:+ ts ∧ P a

namespace Parser

variable {α β : Type} {all : List Token} {P : α → Prop} {Q : β → Prop}

/-! ## Single steps -/

/-- What a sequence of two parsers reads. -/
theorem bind_eq_some_iff {p : Parser α} {f : α → Parser β} {ts rest : List Token} {b : β} :
    (p >>= f) ts = some (b, rest) ↔ ∃ a next, p ts = some (a, next) ∧ f a next = some (b, rest) :=
      by
  have hbind : (p >>= f) ts = (p ts).bind fun x => f x.1 x.2 := rfl
  rw [hbind, Option.bind_eq_some_iff]
  exact Prod.exists

/-- An answer without reading takes nothing. -/
theorem pure_eq_some_iff {a b : α} {ts rest : List Token} :
    (pure a : Parser α) ts = some (b, rest) ↔ a = b ∧ ts = rest := by
  show some (a, ts) = some (b, rest) ↔ _
  rw [Option.some.injEq, Prod.mk.injEq]

/-- What is read by the first of two parsers that reads anything. -/
theorem orElse_eq_some_iff {p q : Parser α} {ts rest : List Token} {a : α} :
    (p <|> q) ts = some (a, rest)
      ↔ p ts = some (a, rest) ∨ p ts = none ∧ q ts = some (a, rest) := by
  have horElse : (p <|> q) ts = (p ts).orElse fun _ => q ts := rfl
  rw [horElse]
  cases p ts <;> simp

/-- Taking a token under a condition takes the first one, if it meets the condition. -/
theorem takeIf_eq_some_iff {test : Token → Bool} {ts rest : List Token} {t : Token} :
    takeIf test ts = some (t, rest) ↔ test t = true ∧ ts = t :: rest := by
  unfold takeIf
  cases ts with
  | nil => simp
  | cons u us =>
    by_cases hu : test u = true
    · simp only [hu, if_true, Option.some.injEq, Prod.mk.injEq, List.cons.injEq]
      constructor
      · rintro ⟨rfl, rfl⟩
        exact ⟨hu, rfl, rfl⟩
      · rintro ⟨-, rfl, rfl⟩
        exact ⟨rfl, rfl⟩
    · simp only [hu, if_false, Bool.false_eq_true, List.cons.injEq, false_iff, reduceCtorEq]
      rintro ⟨ht, rfl, rfl⟩
      exact hu ht

/-- A token of a given text is the first one. -/
theorem token_eq_some_iff {text : String} {ts rest : List Token} {t : Token} :
    token text ts = some (t, rest) ↔ t.text = text ∧ ts = t :: rest := by
  rw [token, takeIf_eq_some_iff, beq_iff_eq]

/-- Passing over a token needs one of this text in the first place. -/
theorem skip_eq_some_iff {text : String} {ts rest : List Token} :
    skip text ts = some ((), rest) ↔ ∃ t, t.text = text ∧ ts = t :: rest := by
  unfold skip
  rw [bind_eq_some_iff]
  simp only [token_eq_some_iff, pure_eq_some_iff, true_and]
  constructor
  · rintro ⟨t, next, ht, rfl⟩
    exact ⟨t, ht⟩
  · rintro ⟨t, ht⟩
    exact ⟨t, rest, ht, rfl⟩

/-- What may be missing is read if it can be, and otherwise nothing is taken. -/
theorem optionally_eq_some_iff {p : Parser α} {ts rest : List Token} {o : Option α} :
    optionally p ts = some (o, rest)
      ↔ (∃ a, o = some a ∧ p ts = some (a, rest)) ∨ o = none ∧ p ts = none ∧ rest = ts := by
  unfold optionally
  cases hp : p ts with
  | none => simp [eq_comm]
  | some x =>
    obtain ⟨a, next⟩ := x
    simp only [Option.some.injEq, Prod.mk.injEq]
    grind

namespace Reads

/-- What is read has every property that follows from what is known of it. -/
theorem mono {P P' : α → Prop} {p : Parser α} (hp : Reads all P p) (h : ∀ a, P a → P' a) :
    Reads all P' p := by
  refine ⟨?_⟩
  intro ts a rest hts hread
  obtain ⟨hrest, ha⟩ := hp.of_read hts hread
  exact ⟨hrest, h a ha⟩

protected theorem pure {a : α} (h : P a) : Reads all P (pure a) := by
  refine ⟨?_⟩
  intro ts b rest _ hread
  obtain ⟨rfl, rfl⟩ := pure_eq_some_iff.mp hread
  exact ⟨List.suffix_refl _, h⟩

/-- What never reads anything reads nothing wrong. -/
protected theorem failure : Reads all P failure := by
  refine ⟨?_⟩
  intro ts a rest _ hread
  cases hread

/-- The second parser is set on what the first one leaves, and may count on what that one
read. -/
protected theorem bind {p : Parser α} {f : α → Parser β} (hp : Reads all P p)
    (hf : ∀ a, P a → Reads all Q (f a)) : Reads all Q (p >>= f) := by
  refine ⟨?_⟩
  intro ts b rest hts hread
  obtain ⟨a, next, hfirst, hsecond⟩ := bind_eq_some_iff.mp hread
  obtain ⟨hnext, ha⟩ := hp.of_read hts hfirst
  obtain ⟨hrest, hb⟩ := (hf a ha).of_read (hnext.trans hts) hsecond
  exact ⟨hrest.trans hnext, hb⟩

/-- Whichever alternative reads, the property holds. -/
protected theorem orElse {p q : Parser α} (hp : Reads all P p) (hq : Reads all P q) :
    Reads all P (p <|> q) := by
  refine ⟨?_⟩
  intro ts a rest hts hread
  rcases orElse_eq_some_iff.mp hread with hfirst | ⟨-, hsecond⟩
  · exact hp.of_read hts hfirst
  · exact hq.of_read hts hsecond

/-- A choice by a condition reads what one of its branches reads. -/
protected theorem ite {c : Prop} [Decidable c] {p q : Parser α} (hp : Reads all P p)
    (hq : Reads all P q) : Reads all P (if c then p else q) := by
  split
  · exact hp
  · exact hq

end Reads

/-! ## Looking and taking -/

/-- What is left of the tokens is a rest of the file. -/
theorem reads_get : Reads all (fun ts : List Token => ts <:+ all) get := by
  refine ⟨?_⟩
  intro ts a rest hts hread
  obtain ⟨rfl, rfl⟩ := pure_eq_some_iff.mp hread
  exact ⟨List.suffix_refl _, hts⟩

/-- A look ahead takes nothing. -/
theorem reads_peek : Reads all (fun _ => True) peek :=
  reads_get.bind fun _ _ => .pure trivial

/-- Asking for the next text takes nothing. -/
theorem reads_at? (text : String) : Reads all (fun _ => True) (at? text) :=
  reads_peek.bind fun _ _ => .pure trivial

/-- A token that is taken is one of the file and meets the condition. -/
theorem reads_takeIf (test : Token → Bool) :
    Reads all (fun t => t ∈ all ∧ test t = true) (takeIf test) := by
  refine ⟨?_⟩
  intro ts t rest hts hread
  obtain ⟨ht, rfl⟩ := takeIf_eq_some_iff.mp hread
  exact ⟨List.suffix_cons _ _, hts.subset (List.mem_cons_self ..), ht⟩

/-- Nothing is known of what is passed over. -/
theorem reads_skip (text : String) : Reads all (fun _ => True) (skip text) :=
  (reads_takeIf _).bind fun _ _ => .pure trivial

/-- Nor of a token that has to touch the one before it. -/
theorem reads_adjacent (text : String) : Reads all (fun _ => True) (adjacent text) :=
  (reads_takeIf _).bind fun _ _ => .pure trivial

/-! ## Choices and repetitions -/

namespace Reads

variable {p : Parser α}

/-- If something is read, it has the property. -/
protected theorem optionally (hp : Reads all P p) :
    Reads all (fun o => ∀ a ∈ o, P a) (optionally p) := by
  refine ⟨?_⟩
  intro ts o rest hts hread
  rcases optionally_eq_some_iff.mp hread with ⟨a, rfl, ha⟩ | ⟨rfl, -, rfl⟩
  · obtain ⟨hrest, hPa⟩ := hp.of_read hts ha
    exact ⟨hrest, fun b hb => Option.mem_some.mp hb ▸ hPa⟩
  · exact ⟨List.suffix_refl _, fun _ hb => absurd hb (Option.not_mem_none _)⟩

/-- A default has to have the property as well. -/
protected theorem orDefault {default : α} (h : P default) (hp : Reads all P p) :
    Reads all P (orDefault default p) := by
  refine hp.optionally.bind fun o ho => .pure ?_
  cases o with
  | none => exact h
  | some a => exact ho a rfl

protected theorem accepts (hp : Reads all P p) : Reads all (fun _ => True) (accepts p) :=
  hp.optionally.bind fun _ _ => .pure trivial

/-- Every round has the property, since each starts at a place in the file. -/
protected theorem repeatWhile (hp : Reads all P p) (fuel : Nat) :
    ∀ {ts as rest}, ts <:+ all → repeatWhile p fuel ts = (as, rest) →
      rest <:+ ts ∧ ∀ a ∈ as, P a := by
  have hstop : ∀ {ts as rest}, (([], ts) : List α × List Token) = (as, rest) →
      rest <:+ ts ∧ ∀ a ∈ as, P a := by
    rintro ts as rest heq
    cases heq
    exact ⟨List.suffix_refl _, nofun⟩
  induction fuel with
  | zero =>
    intro ts as rest _ hread
    exact hstop hread
  | succ fuel ih =>
    intro ts as rest hts hread
    rw [repeatWhile] at hread
    cases hfirst : p ts with
    | none =>
      rw [hfirst] at hread
      exact hstop hread
    | some x =>
      obtain ⟨a, next⟩ := x
      rw [hfirst] at hread
      dsimp only at hread
      split at hread
      · -- one round, and then the others from where it ended
        obtain ⟨hnext, ha⟩ := hp.of_read hts hfirst
        cases hmore : repeatWhile p fuel next with
        | mk more last =>
          rw [hmore] at hread
          cases hread
          obtain ⟨hlast, hall⟩ := ih (hnext.trans hts) hmore
          exact ⟨hlast.trans hnext, List.forall_mem_cons.mpr ⟨ha, hall⟩⟩
      · exact hstop hread

protected theorem many (hp : Reads all P p) : Reads all (fun as => ∀ a ∈ as, P a) (many p) := by
  refine ⟨?_⟩
  intro ts as rest hts hread
  exact hp.repeatWhile ts.length hts (Option.some.inj hread)

/-- A repetition with at least one round. -/
protected theorem many1 (hp : Reads all P p) : Reads all (fun as => ∀ a ∈ as, P a) (many1 p) :=
  hp.bind fun _ ha => hp.many.bind fun _ has => .pure (List.forall_mem_cons.mpr ⟨ha, has⟩)

/-- Parts with a separator between them. -/
protected theorem separated1 (separator : String) (hp : Reads all P p) :
    Reads all (fun as => ∀ a ∈ as, P a) (separated1 separator p) :=
  hp.bind fun _ ha => ((reads_skip separator).bind fun _ _ => hp).many.bind fun _ has =>
    .pure (List.forall_mem_cons.mpr ⟨ha, has⟩)

protected theorem separated (separator : String) (hp : Reads all P p) :
    Reads all (fun as => ∀ a ∈ as, P a) (separated separator p) :=
  .orDefault nofun (hp.separated1 separator)

/-- The tokens that are taken are noted, and the answer is as before. -/
protected theorem spanned (hp : Reads all P p) : Reads all (fun x => P x.1) (spanned p) := by
  refine ⟨?_⟩
  intro ts x rest hts hread
  unfold Parser.spanned at hread
  cases hfirst : p ts with
  | none => rw [hfirst] at hread; cases hread
  | some y =>
    rw [hfirst] at hread
    cases hread
    exact hp.of_read hts hfirst

end Reads

/-! ## First tokens -/

/-- Whatever `p` reads begins with a token of the given text. -/
structure Begins (all : List Token) (text : String) (p : Parser α) : Prop where
  of_read : ∀ {ts a rest}, ts <:+ all → p ts = some (a, rest) →
    ∃ t more, ts = t :: more ∧ t.text = text ∧ rest <:+ more

namespace Begins

variable {text : String}

/-- A rule that passes over a token first begins with it. -/
theorem skip_bind {f : Unit → Parser α} (hf : Reads all P (f ())) :
    Begins all text (skip text >>= f) := by
  refine ⟨?_⟩
  intro ts a rest hts hread
  obtain ⟨⟨⟩, next, hskip, hnext⟩ := bind_eq_some_iff.mp hread
  obtain ⟨t, ht, rfl⟩ := skip_eq_some_iff.mp hskip
  exact ⟨t, next, rfl, ht, (hf.of_read ((List.suffix_cons _ _).trans hts) hnext).1⟩

/-- A repetition takes nothing, or begins like what is repeated. -/
theorem many {p : Parser α} (hp : Reads all P p) (hbegins : Begins all text p)
    {ts rest : List Token} {as : List α} (hts : ts <:+ all)
    (hread : Parser.many p ts = some (as, rest)) :
    rest = ts ∨ ∃ t more, ts = t :: more ∧ t.text = text ∧ rest <:+ more := by
  have hrun : Parser.repeatWhile p ts.length ts = (as, rest) := Option.some.inj hread
  cases ts with
  | nil =>
    cases hrun
    exact .inl rfl
  | cons u us =>
    rw [List.length_cons, Parser.repeatWhile] at hrun
    cases hfirst : p (u :: us) with
    | none =>
      rw [hfirst] at hrun
      cases hrun
      exact .inl rfl
    | some x =>
      obtain ⟨a, next⟩ := x
      rw [hfirst] at hrun
      dsimp only at hrun
      split at hrun
      · obtain ⟨t, more, heq, htext, hnext⟩ := hbegins.of_read hts hfirst
        have hsuffix := hnext.trans (heq ▸ List.suffix_cons t more)
        cases hmore : Parser.repeatWhile p us.length next with
        | mk others last =>
          rw [hmore] at hrun
          cases hrun
          obtain ⟨hlast, -⟩ := hp.repeatWhile us.length (hsuffix.trans hts) hmore
          exact .inr ⟨t, more, heq, htext, hlast.trans hnext⟩
      · cases hrun
        exact .inl rfl

end Begins

/-! ## Passing over -/

/-- Passing over everything up to a closing bracket leaves a rest. -/
theorem skipToClose_suffix {ts rest : List Token} :
    ∀ {depth}, skipToClose depth ts = some rest → rest <:+ ts := by
  induction ts with
  | nil => intro depth h; cases h
  | cons t ts ih =>
    intro depth h
    unfold skipToClose at h
    split at h
    · exact (ih h).trans (List.suffix_cons _ _)
    · split at h
      · cases depth with
        | zero =>
          cases h
          exact List.suffix_cons _ _
        | succ depth => exact (ih h).trans (List.suffix_cons _ _)
      · exact (ih h).trans (List.suffix_cons _ _)

/-- Something in brackets is passed over as a whole. -/
theorem reads_skipBalanced (text : String) : Reads all (fun _ => True) (skipBalanced text) := by
  refine ⟨?_⟩
  intro ts a rest _ hread
  unfold skipBalanced at hread
  cases ts with
  | nil => cases hread
  | cons t ts =>
    dsimp only at hread
    split at hread
    · obtain ⟨r, hr, heq⟩ := Option.map_eq_some_iff.mp hread
      cases heq
      exact ⟨(skipToClose_suffix hr).trans (List.suffix_cons _ _), trivial⟩
    · cases hread

/-- Passing over what cannot be read leaves a rest. -/
theorem skipDamaged_suffix {fuel : Nat} {ts : List Token} : skipDamaged fuel ts <:+ ts := by
  induction fuel generalizing ts with
  | zero => exact List.suffix_refl _
  | succ fuel ih =>
    cases ts with
    | nil => exact List.suffix_refl _
    | cons t ts =>
      rw [skipDamaged]
      split
      · exact List.suffix_cons _ _
      · split
        · exact List.suffix_refl _
        · split
          · cases hclose : skipToClose 0 ts with
            | none => exact List.nil_suffix
            | some rest => exact (skipToClose_suffix hclose).trans (List.suffix_cons _ _)
          · exact ih.trans (List.suffix_cons _ _)

/-- Where nothing can be read, there is no answer that could lack the property. -/
protected theorem Reads.recovering {p : Parser α} (hp : Reads all P p) :
    Reads all (fun o => ∀ a ∈ o, P a) (recovering p) := by
  refine ⟨?_⟩
  intro ts o rest hts hread
  unfold Parser.recovering at hread
  cases hfirst : p ts with
  | some x =>
    rw [hfirst] at hread
    cases hread
    obtain ⟨hrest, ha⟩ := hp.of_read hts hfirst
    exact ⟨hrest, fun b hb => Option.mem_some.mp hb ▸ ha⟩
  | none =>
    rw [hfirst] at hread
    cases ts with
    | nil => cases hread
    | cons t ts =>
      dsimp only at hread
      split at hread
      · cases hread
      · cases hread
        exact ⟨skipDamaged_suffix, fun _ hb => absurd hb (Option.not_mem_none _)⟩

end Parser

end ClassDiagram.Java
