import ClassDiagram.Proofs.Lexemes
import ClassDiagram.Proofs.Reading
import Mathlib.Data.List.Forall2

/-!
# Reading tokens with other blanks between them

Two lists of tokens are `Respaced` if they have the same tokens, and the gaps before the
tokens differ in nothing but their blanks. The grammar looks at gaps in few places: operators
are put together of symbols that touch, `non-sealed` is one word, and the name of an
annotation is known by its text. There the gaps have to be the same, and what stands before a
token tells where that is (`Preceding`).

`Parser.Agree R p q` says that the parsers `p` and `q`, set on respaced tokens, both fail or
both read, that what they read is related by `R`, and that what they leave is respaced again.
There is one lemma for each way to put parsers together, so that two readings of a rule of the
grammar agree if the readings of its parts do.
-/

namespace ClassDiagram.Java

open Text

/-! ## Respaced tokens -/

/-- A token without its place and the blanks before it. -/
def Token.unspaced (t : Token) : Token :=
  { t with lead := t.lead.filter (fun c => !isBlank c), line := 0, column := 0 }

/-- Two tokens that differ in their places and in the blanks before them. -/
abbrev Token.Alike (t t' : Token) : Prop :=
  t.unspaced = t'.unspaced

/-- Blanks before a token are not part of its text. -/
theorem Token.Alike.text_eq {t t' : Token} (h : t.Alike t') : t.text = t'.text := by
  show t.unspaced.text = t'.unspaced.text
  rw [h]

theorem Token.Alike.kind_eq {t t' : Token} (h : t.Alike t') : t.kind = t'.kind := by
  show t.unspaced.kind = t'.unspaced.kind
  rw [h]

/-- What stands before a token, as far as the gap between the two may matter. -/
inductive Preceding where
  /-- A minus sign. -/
  | minus
  /-- The beginning of the name of an annotation: `@`, or a dot inside the name. -/
  | sign
  /-- A word in the name of an annotation. -/
  | markName
  | other
  deriving DecidableEq

namespace Preceding

/-- What stands before the token after `t`, given what stands before `t`. -/
def after (w : Preceding) (t : Token) : Preceding :=
  if t.text = "@" then .sign
  else if t.text = "-" then .minus
  else if w = .sign ∧ t.kind = .word then .markName
  else if w = .markName ∧ t.text = "." then .sign
  else .other

/-- What stands before the token after some tokens. -/
def afterAll (w : Preceding) (ts : List Token) : Preceding :=
  ts.foldl after w

/-- The symbols that are read together with the symbol before them if they touch it. -/
def touching : List String :=
  [">", "=", "-"]

/-- Whether the gap before a token has to stay as it is. -/
def isTight (w : Preceding) (t : Token) : Bool :=
  w == .minus || w == .sign || (w == .markName && t.text == ".") || touching.contains t.text

end Preceding

/-- Tokens that agree up to the blanks between them, after something that stands before. -/
inductive RespacedFrom : Preceding → List Token → List Token → Prop
  | nil (w : Preceding) : RespacedFrom w [] []
  | cons {w : Preceding} {t t' : Token} {ts ts' : List Token} (lexed : t.WellLexed)
      (alike : t.Alike t') (tight : w.isTight t = true → t.lead = t'.lead)
      (rest : RespacedFrom (w.after t) ts ts') : RespacedFrom w (t :: ts) (t' :: ts')

/-- Tokens that agree up to the blanks between them. -/
def Respaced (ts ts' : List Token) : Prop :=
  ∃ w, RespacedFrom w ts ts'

/-- What stands before the first token need not be told. -/
theorem RespacedFrom.respaced {w : Preceding} {ts ts' : List Token} (h : RespacedFrom w ts ts') :
    Respaced ts ts' :=
  ⟨w, h⟩

namespace Respaced

variable {t t' : Token} {ts ts' : List Token}

/-- Without blanks and places the tokens are the same. -/
theorem map_unspaced_eq (h : Respaced ts ts') : ts.map Token.unspaced = ts'.map Token.unspaced := by
  obtain ⟨w, h⟩ := h
  induction h with
  | nil => rfl
  | cons _ alike _ _ ih => rw [List.map_cons, List.map_cons, alike, ih]

/-- They are as many, so the same fuel is enough for both. -/
theorem length_eq (h : Respaced ts ts') : ts.length = ts'.length := by
  simpa using congrArg List.length h.map_unspaced_eq

/-- The first tokens are alike. -/
theorem alike (h : Respaced (t :: ts) (t' :: ts')) : t.Alike t' := by
  obtain ⟨w, h⟩ := h
  cases h with
  | cons _ alike _ _ => exact alike

/-- What follows the first tokens is respaced again. -/
theorem tail (h : Respaced (t :: ts) (t' :: ts')) : Respaced ts ts' := by
  obtain ⟨w, h⟩ := h
  cases h with
  | cons _ _ _ rest => exact rest.respaced

theorem text_eq (h : Respaced (t :: ts) (t' :: ts')) : t.text = t'.text :=
  h.alike.text_eq

theorem kind_eq (h : Respaced (t :: ts) (t' :: ts')) : t.kind = t'.kind :=
  h.alike.kind_eq

/-- Before a symbol that may touch the one before it, the gap is the same. -/
theorem lead_eq (h : Respaced (t :: ts) (t' :: ts')) (ht : t.text ∈ Preceding.touching) :
    t.lead = t'.lead := by
  obtain ⟨w, h⟩ := h
  cases h with
  | cons _ _ tight _ =>
    refine tight ?_
    rw [Preceding.isTight, List.contains_iff_mem.mpr ht, Bool.or_true]

/-- Where there is no token on one side, there is none on the other. -/
theorem nil_left (h : Respaced [] ts') : ts' = [] := by
  obtain ⟨w, h⟩ := h
  cases h
  rfl

/-- A first token on one side has a counterpart on the other. -/
theorem exists_cons_left (h : Respaced (t :: ts) ts') : ∃ u us, ts' = u :: us := by
  obtain ⟨w, h⟩ := h
  cases h
  exact ⟨_, _, rfl⟩

/-- Both can be at their end. -/
theorem nil : Respaced [] [] :=
  ⟨.other, .nil _⟩

end Respaced

/-- What is the same for related elements is the same for related lists. -/
theorem map_eq_of_forall₂ {α β : Type} {R : α → α → Prop} {f : α → β} {xs ys : List α}
    (h : List.Forall₂ R xs ys) (hf : ∀ x y, R x y → f x = f y) : xs.map f = ys.map f := by
  induction h with
  | nil => rfl
  | cons hxy _ ih => rw [List.map_cons, List.map_cons, hf _ _ hxy, ih]

/-- So is what is kept of the elements. -/
theorem filterMap_eq_of_forall₂ {α β : Type} {R : α → α → Prop} {f : α → Option β}
    {xs ys : List α} (h : List.Forall₂ R xs ys) (hf : ∀ x y, R x y → f x = f y) :
    xs.filterMap f = ys.filterMap f := by
  induction h with
  | nil => rfl
  | cons hxy _ ih => rw [List.filterMap_cons, List.filterMap_cons, hf _ _ hxy, ih]

/-- Respaced tokens have the same text up to its blanks. -/
theorem withoutBlanks_spanText {ts ts' : List Token}
    (h : ts.map Token.unspaced = ts'.map Token.unspaced) :
    withoutBlanks (spanText ts) = withoutBlanks (spanText ts') := by
  have hself : ∀ us : List Token, withoutBlanks (spanText (us.map Token.unspaced))
      = withoutBlanks (spanText us) := by
    intro us
    cases us with
    | nil => rfl
    | cons u us =>
      rw [List.map_cons, withoutBlanks, withoutBlanks, toList_spanText_cons, toList_spanText_cons,
        List.filter_append, List.filter_append, List.flatMap_map]
      have hchars : ∀ v : Token, v.unspaced.chars.filter (fun c => !isBlank c)
          = v.chars.filter (fun c => !isBlank c) := by
        intro v
        simp [Token.chars, Token.unspaced, List.filter_filter]
      rw [List.filter_flatMap, List.filter_flatMap]
      simp only [hchars]
      rfl
  rw [← hself ts, h, hself]

/-- A character that is not blank stands as often in a text without its blanks. -/
theorem count_withoutBlanks {c : Char} (hc : isBlank c = false) (s : String) :
    (withoutBlanks s).toList.count c = s.toList.count c := by
  rw [withoutBlanks, String.toList_ofList, List.count_filter (by rw [hc, Bool.not_false])]

/-! ## Two readings that agree -/

namespace Parser

variable {α β : Type} {R : α → α → Prop} {S : β → β → Prop} {ts ts' : List Token}

/-- Two readings that both fail, or read something related and leave respaced tokens. -/
inductive Outcome (R : α → α → Prop) :
    Option (α × List Token) → Option (α × List Token) → Prop
  | none : Outcome R none none
  | some {a b : α} {rest rest' : List Token} (related : R a b) (respaced : Respaced rest rest') :
      Outcome R (some (a, rest)) (some (b, rest'))

/-- The parsers `p` and `q`, set on respaced tokens, read alike. -/
structure Agree (R : α → α → Prop) (p q : Parser α) : Prop where
  on : ∀ {ts ts'}, Respaced ts ts' → Outcome R (p ts) (q ts')

/-- One reading after another. -/
protected theorem Outcome.bind {k l : α → Parser β} {o o' : Option (α × List Token)}
    (h : Outcome R o o') (hk : ∀ a b, R a b → Agree S (k a) (l b)) :
    Outcome S (o.bind fun x => k x.1 x.2) (o'.bind fun x => l x.1 x.2) := by
  cases h with
  | none => exact .none
  | some hab hrest => exact (hk _ _ hab).on hrest

namespace Agree

variable {p q p' q' : Parser α}

/-- Readings that agree closely agree loosely. -/
theorem mono {R' : α → α → Prop} (hp : Agree R p q) (h : ∀ a b, R a b → R' a b) :
    Agree R' p q := by
  refine ⟨?_⟩
  intro ts ts' hts
  have hfirst := hp.on hts
  generalize p ts = o, q ts' = o' at hfirst ⊢
  cases hfirst with
  | none => exact .none
  | some hab hrest => exact .some (h _ _ hab) hrest

/-- Answers given without reading have to be related by themselves. -/
protected theorem pure {a b : α} (h : R a b) : Agree R (pure a) (pure b) :=
  ⟨fun hts => .some h hts⟩

/-- Failing agrees with failing. -/
protected theorem failure : Agree R failure failure :=
  ⟨fun _ => .none⟩

/-- The second parts may depend on answers that are only related. -/
protected theorem bind {k l : α → Parser β} (hp : Agree R p q)
    (hk : ∀ a b, R a b → Agree S (k a) (l b)) : Agree S (p >>= k) (q >>= l) :=
  ⟨fun hts => (hp.on hts).bind hk⟩

/-- A sequence whose first part gives the same in both readings. -/
theorem same {k l : α → Parser β} (hp : Agree Eq p q) (hk : ∀ a, Agree S (k a) (l a)) :
    Agree S (p >>= k) (q >>= l) :=
  hp.bind fun a _ h => h ▸ hk a

/-- A sequence whose first part only passes over tokens. -/
theorem seq {k l : Parser β} (hp : Agree R p q) (hk : Agree S k l) :
    Agree S (p >>= fun _ => k) (q >>= fun _ => l) :=
  hp.bind fun _ _ _ => hk

/-- The second alternatives are tried on the same tokens, for the first ones both fail or both
read. -/
protected theorem orElse (hp : Agree R p q) (hp' : Agree R p' q') :
    Agree R (p <|> p') (q <|> q') := by
  refine ⟨?_⟩
  intro ts ts' hts
  have hfirst := hp.on hts
  show Outcome R ((p ts).orElse fun _ => p' ts) ((q ts').orElse fun _ => q' ts')
  generalize p ts = o, q ts' = o' at hfirst ⊢
  cases hfirst with
  | none => exact hp'.on hts
  | some hab hrest => exact .some hab hrest

/-- The conditions may be different, if they have the same answer. -/
protected theorem ite {c c' : Prop} [Decidable c] [Decidable c'] (h : c ↔ c') (hp : Agree R p q)
    (hp' : Agree R p' q') : Agree R (if c then p else p') (if c' then q else q') := by
  by_cases hc : c
  · rw [if_pos hc, if_pos (h.mp hc)]
    exact hp
  · rw [if_neg hc, if_neg (mt h.mpr hc)]
    exact hp'

end Agree

/-! ## Looking and taking -/

/-- The tokens that are left are seen as they are, so they are only respaced. -/
theorem agree_get : Agree Respaced get get :=
  ⟨fun hts => .some hts hts⟩

/-- What is computed from the tokens ahead, without their places and blanks, is the same. -/
theorem agree_look {f : List Token → α} (hf : ∀ {ts ts'}, Respaced ts ts' → f ts = f ts') :
    Agree Eq (do return f (← get)) (do return f (← get)) :=
  agree_get.bind fun _ _ hts => .pure (hf hts)

/-- The next token is the same up to its blanks and its place. -/
theorem head?_unspaced (h : Respaced ts ts') :
    ts.head?.map Token.unspaced = ts'.head?.map Token.unspaced := by
  rw [← List.head?_map, h.map_unspaced_eq, List.head?_map]

/-- A test that does not look at gaps and places has the same answer. -/
theorem any_unspaced {test : Token → Bool} (htest : ∀ t, test t.unspaced = test t)
    {o o' : Option Token} (h : o.map Token.unspaced = o'.map Token.unspaced) :
    o.any test = o'.any test := by
  have hself : ∀ o : Option Token, (o.map Token.unspaced).any test = o.any test := by
    intro o
    cases o with
    | none => rfl
    | some t => exact htest t
  rw [← hself, h, hself]

/-- A look ahead sees tokens that are alike. -/
theorem agree_peek : Agree (fun o o' => o.map Token.unspaced = o'.map Token.unspaced) peek peek :=
  agree_get.bind fun _ _ hts => .pure (head?_unspaced hts)

/-- The text of the next token is the same. -/
theorem agree_at? (text : String) : Agree Eq (at? text) (at? text) :=
  agree_look fun hts => any_unspaced (fun _ => rfl) (head?_unspaced hts)

/-- A test with the same answer for the first of respaced tokens takes both or none. -/
theorem takeIf_respaced {test : Token → Bool} {t t' : Token} (hts : Respaced (t :: ts) (t' :: ts'))
    (htest : test t = test t') :
    Outcome Token.Alike (takeIf test (t :: ts)) (takeIf test (t' :: ts')) := by
  unfold takeIf
  dsimp only
  rw [← htest]
  split
  · exact .some hts.alike hts.tail
  · exact .none

/-- Tokens are taken alike if the test has the same answer wherever the two readings can be. -/
theorem agree_takeIf_of {test : Token → Bool}
    (htest : ∀ {t t' ts ts'}, Respaced (t :: ts) (t' :: ts') → test t = test t') :
    Agree Token.Alike (takeIf test) (takeIf test) := by
  refine ⟨?_⟩
  intro ts ts' hts
  cases ts with
  | nil =>
    rw [hts.nil_left]
    exact .none
  | cons t ts =>
    obtain ⟨t', ts', rfl⟩ := hts.exists_cons_left
    exact takeIf_respaced hts (htest hts)

/-- In particular if it sees no gaps and places. -/
theorem agree_takeIf {test : Token → Bool} (htest : ∀ t, test t.unspaced = test t) :
    Agree Token.Alike (takeIf test) (takeIf test) := by
  refine agree_takeIf_of fun {t t' ts ts'} hts => ?_
  rw [← htest t, hts.alike, htest]

theorem agree_skip (text : String) : Agree Eq (skip text) (skip text) :=
  (agree_takeIf fun _ => rfl).seq (.pure rfl)

/-- Whether a symbol touches the one before it is the same, as its gap is tight. -/
theorem agree_adjacent {text : String} (h : text ∈ Preceding.touching) :
    Agree Eq (adjacent text) (adjacent text) := by
  refine (agree_takeIf_of fun {t t' ts ts'} hts => ?_).seq (.pure rfl)
  by_cases ht : t.text = text
  · rw [hts.lead_eq (ht ▸ h), hts.text_eq]
  · have ht' : t'.text ≠ text := hts.text_eq ▸ ht
    rw [beq_false_of_ne ht, beq_false_of_ne ht', Bool.false_and, Bool.false_and]

/-- Names are told by the kind and the text of a token. -/
theorem agree_identifier : Agree Token.Alike identifier identifier :=
  agree_takeIf fun _ => rfl

theorem agree_typeIdentifier : Agree Token.Alike typeIdentifier typeIdentifier :=
  agree_takeIf fun _ => rfl

/-! ## Choices and repetitions -/

namespace Agree

variable {p q : Parser α}

protected theorem optionally (hp : Agree R p q) :
    Agree (Option.Rel R) (optionally p) (optionally q) := by
  refine ⟨?_⟩
  intro ts ts' hts
  have hfirst := hp.on hts
  unfold Parser.optionally
  generalize p ts = o, q ts' = o' at hfirst ⊢
  cases hfirst with
  | none => exact .some .none hts
  | some hab hrest => exact .some (.some hab) hrest

/-- The defaults have to be related, for both readings fall back on them together. -/
protected theorem orDefault {a b : α} (hp : Agree R p q) (h : R a b) :
    Agree R (orDefault a p) (orDefault b q) := by
  refine hp.optionally.bind fun o o' ho => .pure ?_
  cases ho with
  | none => exact h
  | some hab => exact hab

/-- Both readings pass something over, or neither does. -/
protected theorem accepts (hp : Agree R p q) : Agree Eq (accepts p) (accepts q) := by
  refine hp.optionally.bind fun o o' ho => .pure ?_
  cases ho with
  | none => rfl
  | some => rfl

/-- The rounds of a repetition agree one by one. -/
protected theorem repeatWhile (hp : Agree R p q) (fuel : Nat) : ∀ {ts ts'}, Respaced ts ts' →
    List.Forall₂ R (repeatWhile p fuel ts).1 (repeatWhile q fuel ts').1
      ∧ Respaced (repeatWhile p fuel ts).2 (repeatWhile q fuel ts').2 := by
  induction fuel with
  | zero =>
    intro ts ts' hts
    exact ⟨.nil, hts⟩
  | succ fuel ih =>
    intro ts ts' hts
    have hfirst := hp.on hts
    rw [Parser.repeatWhile, Parser.repeatWhile, ← hts.length_eq]
    generalize p ts = o, q ts' = o' at hfirst ⊢
    cases hfirst with
    | none => exact ⟨.nil, hts⟩
    | @some a b rest rest' hab hrest =>
      dsimp only
      rw [← hrest.length_eq]
      by_cases hshort : rest.length < ts.length
      · rw [if_pos hshort, if_pos hshort]
        exact ⟨.cons hab (ih hrest).1, (ih hrest).2⟩
      · rw [if_neg hshort, if_neg hshort]
        exact ⟨.nil, hts⟩

/-- A repetition has as many rounds in both readings. -/
protected theorem many (hp : Agree R p q) : Agree (List.Forall₂ R) (many p) (many q) := by
  refine ⟨?_⟩
  intro ts ts' hts
  unfold Parser.many
  rw [← hts.length_eq]
  obtain ⟨has, hrest⟩ := hp.repeatWhile ts.length hts
  exact .some has hrest

protected theorem many1 (hp : Agree R p q) : Agree (List.Forall₂ R) (many1 p) (many1 q) :=
  hp.bind fun _ _ hab => hp.many.bind fun _ _ hmore => .pure (.cons hab hmore)

/-- The same with separators. -/
protected theorem separated1 (separator : String) (hp : Agree R p q) :
    Agree (List.Forall₂ R) (separated1 separator p) (separated1 separator q) :=
  hp.bind fun _ _ hab => ((agree_skip separator).seq hp).many.bind fun _ _ hmore =>
    .pure (.cons hab hmore)

protected theorem separated (separator : String) (hp : Agree R p q) :
    Agree (List.Forall₂ R) (separated separator p) (separated separator q) :=
  (hp.separated1 separator).orDefault .nil

/-- The tokens that were taken agree as well. -/
protected theorem spanned (hp : Agree R p q) :
    Agree (fun x y => R x.1 y.1 ∧ x.2.map Token.unspaced = y.2.map Token.unspaced)
      (spanned p) (spanned q) := by
  refine ⟨?_⟩
  intro ts ts' hts
  have hfirst := hp.on hts
  unfold Parser.spanned
  generalize p ts = o, q ts' = o' at hfirst ⊢
  cases hfirst with
  | none => exact .none
  | some hab hrest =>
    refine .some ⟨hab, ?_⟩ hrest
    rw [List.map_take, List.map_take, hts.map_unspaced_eq, hts.length_eq, hrest.length_eq]

end Agree

/-! ## Passing over -/

/-- Closing brackets are told by their texts, so both readings pass over as much. -/
theorem skipToClose_respaced : ∀ {ts ts'} (depth : Nat), Respaced ts ts' →
    Option.Rel Respaced (skipToClose depth ts) (skipToClose depth ts') := by
  intro ts
  induction ts with
  | nil =>
    intro ts' depth hts
    rw [hts.nil_left]
    exact .none
  | cons t ts ih =>
    intro ts' depth hts
    obtain ⟨t', ts', rfl⟩ := hts.exists_cons_left
    unfold skipToClose
    rw [← hts.text_eq]
    split
    · exact ih _ hts.tail
    · split
      · cases depth with
        | zero => exact .some hts.tail
        | succ depth => exact ih _ hts.tail
      · exact ih _ hts.tail

/-- Something in brackets is passed over as a whole on both sides. -/
theorem agree_skipBalanced (text : String) : Agree Eq (skipBalanced text) (skipBalanced text) := by
  refine ⟨?_⟩
  intro ts ts' hts
  cases ts with
  | nil =>
    rw [hts.nil_left]
    exact .none
  | cons t ts =>
    obtain ⟨t', ts', rfl⟩ := hts.exists_cons_left
    unfold skipBalanced
    dsimp only
    rw [← hts.text_eq]
    have hclose := skipToClose_respaced 0 hts.tail
    split
    · generalize skipToClose 0 ts = o, skipToClose 0 ts' = o' at hclose ⊢
      cases hclose with
      | none => exact .none
      | some hrest => exact .some rfl hrest
    · exact .none

/-- What cannot be read ends at the same token. -/
theorem skipDamaged_respaced : ∀ {ts ts'} (fuel : Nat), Respaced ts ts' →
    Respaced (skipDamaged fuel ts) (skipDamaged fuel ts') := by
  intro ts ts' fuel
  induction fuel generalizing ts ts' with
  | zero =>
    intro hts
    exact hts
  | succ fuel ih =>
    intro hts
    cases ts with
    | nil =>
      rw [hts.nil_left]
      exact .nil
    | cons t ts =>
      obtain ⟨t', ts', rfl⟩ := hts.exists_cons_left
      rw [skipDamaged, skipDamaged, ← hts.text_eq]
      have hclose := skipToClose_respaced 0 hts.tail
      split
      · exact hts.tail
      · split
        · exact hts
        · split
          · generalize skipToClose 0 ts = o, skipToClose 0 ts' = o' at hclose ⊢
            cases hclose with
            | none => exact .nil
            | some hrest => exact hrest
          · exact ih hts.tail

/-- Both readings recover, or neither needs to. -/
protected theorem Agree.recovering {p q : Parser α} (hp : Agree R p q) :
    Agree (Option.Rel R) (recovering p) (recovering q) := by
  refine ⟨?_⟩
  intro ts ts' hts
  have hfirst := hp.on hts
  unfold Parser.recovering
  generalize p ts = o, q ts' = o' at hfirst ⊢
  cases hfirst with
  | some hab hrest => exact .some (.some hab) hrest
  | none =>
    cases ts with
    | nil =>
      rw [hts.nil_left]
      exact .none
    | cons t ts =>
      obtain ⟨t', ts', rfl⟩ := hts.exists_cons_left
      dsimp only
      rw [← hts.text_eq, ← hts.length_eq]
      split
      · exact .none
      · exact .some .none (skipDamaged_respaced _ hts)

end Parser

end ClassDiagram.Java
