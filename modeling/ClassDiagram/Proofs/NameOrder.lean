import ClassDiagram.Diagram.Graph
import ClassDiagram.Project.Path

/-!
# The order of names

Names are compared by code points and listed in that order. The order of their UTF-8 bytes
is the same one (`nameBytes_lt_iff`). The first byte of an encoding grows with its length,
and encodings of one length are compared by groups of six bits, from the most significant
one down: `Ascends` says that an encoding keeps the order whatever follows it, and
`Ascends.extend` that one more group does not change this. So the first character in which
two names differ decides about their bytes as well.

The order is total and antisymmetric, for names and for lists of names, so sorting has one
result for all orders in which the same things can arrive (`SortsUniquely.mergeSort_eq`).
Paths are compared by their bytes in the first place, and the same holds for them
(`Path.sortsUniquely_le`).
-/

namespace ClassDiagram

/-! ## Code points and bytes -/

/-- The UTF-8 bytes of a name. -/
def nameBytes (name : String) : List UInt8 :=
  name.toUTF8.data.toList

/-- The bytes of a name are those of its characters in a row. -/
theorem nameBytes_eq (name : String) :
    nameBytes name = name.toList.flatMap String.utf8EncodeChar := by
  have hbytes : name.toByteArray = name.toList.utf8Encode := by
    rw [← String.toByteArray_ofList, String.ofList_toList]
  show name.toByteArray.data.toList = _
  rw [hbytes, List.utf8Encode, List.data_toByteArray]

/-- Below `bound`, greater numbers have greater encodings, whatever follows them. -/
def Ascends (encode : Nat → List UInt8) (bound : Nat) : Prop :=
  ∀ v w : Nat, v < w → w < bound → ∀ r r' : List UInt8, encode v ++ r < encode w ++ r'

/-- The first bytes that differ decide which list is the smaller one. -/
theorem ofNat_cons_lt {m n : Nat} (h : m < n) (hn : n < 256) (r r' : List UInt8) :
    UInt8.ofNat m :: r < UInt8.ofNat n :: r' := by
  refine List.cons_lt_cons_iff.mpr (.inl ?_)
  rw [UInt8.lt_iff_toNat_lt, UInt8.toNat_ofNat', UInt8.toNat_ofNat']
  omega

/-- A lead byte counts up from `b` and has room for `n` values. -/
theorem ascends_lead {b n : Nat} (h : b + n ≤ 256) :
    Ascends (fun v => [UInt8.ofNat (v % n + b)]) n := by
  intro v w hvw hw r r'
  have hv : v % n = v := Nat.mod_eq_of_lt (by omega)
  have hw' : w % n = w := Nat.mod_eq_of_lt hw
  refine ofNat_cons_lt ?_ ?_ r r' <;> omega

/-- A last group of six bits only matters where all before it agrees. -/
theorem Ascends.extend {encode : Nat → List UInt8} {bound : Nat} (h : Ascends encode bound) :
    Ascends (fun v => encode (v / 64) ++ [UInt8.ofNat (v % 64 + 128)]) (64 * bound) := by
  intro v w hvw hw r r'
  have hbound : w / 64 < bound := Nat.div_lt_of_lt_mul hw
  show (encode (v / 64) ++ [UInt8.ofNat (v % 64 + 128)]) ++ r
    < (encode (w / 64) ++ [UInt8.ofNat (w % 64 + 128)]) ++ r'
  rw [List.append_assoc, List.append_assoc]
  by_cases hlead : v / 64 < w / 64
  · exact h _ _ hlead hbound _ _
  · have hsame : v / 64 = w / 64 := by omega
    rw [hsame]
    exact List.append_left_lt (ofNat_cons_lt (by omega) (by omega) r r')

/-- The encoding in one byte ascends below 0x80. -/
theorem ascends_one : Ascends (fun v => [UInt8.ofNat v]) 128 := by
  intro v w hvw hw r r'
  exact ofNat_cons_lt hvw (by omega) r r'

/-- The encoding in two bytes ascends below 0x800. -/
theorem ascends_two :
    Ascends (fun v => [UInt8.ofNat (v / 64 % 32 + 192), UInt8.ofNat (v % 64 + 128)]) 2048 :=
  (ascends_lead (b := 192) (n := 32) (by omega)).extend

/-- The encoding in three bytes ascends below 0x10000. -/
theorem ascends_three : Ascends (fun v => [UInt8.ofNat (v / 4096 % 16 + 224),
    UInt8.ofNat (v / 64 % 64 + 128), UInt8.ofNat (v % 64 + 128)]) 65536 := by
  have h := (ascends_lead (b := 224) (n := 16) (by omega)).extend.extend
  simpa [Nat.div_div_eq_div_mul] using h

/-- The encoding in four bytes ascends below 0x200000, past the last code point. -/
theorem ascends_four : Ascends (fun v => [UInt8.ofNat (v / 262144 % 8 + 240),
    UInt8.ofNat (v / 4096 % 64 + 128), UInt8.ofNat (v / 64 % 64 + 128),
    UInt8.ofNat (v % 64 + 128)]) 2097152 := by
  have h := (ascends_lead (b := 240) (n := 8) (by omega)).extend.extend.extend
  simpa [Nat.div_div_eq_div_mul] using h

/-- The encoding of a smaller character is smaller, whatever follows the two. -/
theorem encodeChar_append_lt {c d : Char} (h : c < d) (r r' : List UInt8) :
    String.utf8EncodeChar c ++ r < String.utf8EncodeChar d ++ r' := by
  have hval : c.val.toNat < d.val.toNat := h
  have hmax : d.val.toNat < 2097152 := by
    rcases d.valid with hsmall | hlarge
    · exact Nat.lt_trans hsmall (by decide)
    · exact Nat.lt_trans hlarge.2 (by decide)
  unfold String.utf8EncodeChar
  dsimp only
  -- either both have one length, or the first byte of `d` is the greater one
  by_cases hone : c.val.toNat ≤ 127
  · rw [if_pos hone]
    split
    · exact ascends_one _ _ hval (by omega) r r'
    · repeat' split
      all_goals exact ofNat_cons_lt (by omega) (by omega) _ _
  rw [if_neg hone, if_neg (show ¬d.val.toNat ≤ 127 by omega)]
  by_cases htwo : c.val.toNat ≤ 2047
  · rw [if_pos htwo]
    split
    · exact ascends_two _ _ hval (by omega) r r'
    · split
      all_goals exact ofNat_cons_lt (by omega) (by omega) _ _
  rw [if_neg htwo, if_neg (show ¬d.val.toNat ≤ 2047 by omega)]
  by_cases hthree : c.val.toNat ≤ 65535
  · rw [if_pos hthree]
    split
    · exact ascends_three _ _ hval (by omega) r r'
    · exact ofNat_cons_lt (by omega) (by omega) _ _
  rw [if_neg hthree, if_neg (show ¬d.val.toNat ≤ 65535 by omega)]
  exact ascends_four _ _ hval hmax r r'

/-- Encoding keeps the order of texts. -/
theorem encodeChars_lt {cs ds : List Char} (h : cs < ds) :
    cs.flatMap String.utf8EncodeChar < ds.flatMap String.utf8EncodeChar := by
  induction cs generalizing ds with
  | nil =>
    cases ds with
    | nil => exact absurd h (List.not_lt_nil _)
    | cons d ds =>
      rw [List.flatMap_nil, List.flatMap_cons]
      cases henc : String.utf8EncodeChar d with
      | nil => exact absurd henc String.utf8EncodeChar_ne_nil
      | cons x xs => exact List.nil_lt_cons _ _
  | cons c cs ih =>
    cases ds with
    | nil => exact absurd h (List.not_lt_nil _)
    | cons d ds =>
      rw [List.flatMap_cons, List.flatMap_cons]
      rcases List.cons_lt_cons_iff.mp h with hlt | ⟨rfl, hrest⟩
      · exact encodeChar_append_lt hlt _ _
      · exact List.append_left_lt (ih hrest)

/-- **The order of names is that of their UTF-8 bytes.** -/
theorem nameBytes_lt_iff {a b : String} : nameBytes a < nameBytes b ↔ a < b := by
  have hmono : ∀ {a b : String}, a < b → nameBytes a < nameBytes b := by
    intro a b h
    rw [nameBytes_eq, nameBytes_eq]
    exact encodeChars_lt (String.lt_iff.mp h)
  constructor
  · intro h
    by_cases hab : a < b
    · exact hab
    by_cases hba : b < a
    · exact absurd (hmono hba) (List.lt_asymm h)
    · have heq : a = b := String.le_antisymm (String.not_lt.mp hba) (String.not_lt.mp hab)
      rw [heq] at h
      exact absurd h (List.lt_irrefl _)
  · exact hmono

/-- Whether the bytes of a name come before those of another one. -/
def NameBefore (a b : String) : Prop :=
  nameBytes a < nameBytes b

/-! ## Sorting -/

/-- Comparing the bytes of two names compares the names. -/
theorem nameLe_iff {a b : String} : nameLe a b = true ↔ ¬b < a := by
  unfold nameLe
  rw [Bool.not_eq_true', decide_eq_false_iff_not]

theorem namesLe_iff {as bs : List String} : namesLe as bs = true ↔ ¬bs < as := by
  induction as generalizing bs with
  | nil => simp [namesLe]
  | cons a as ih =>
    cases bs with
    | nil => simp [namesLe]
    | cons b bs =>
      rw [namesLe, List.cons_lt_cons_iff]
      by_cases hab : a = b
      · subst hab
        simp [ih]
      · rw [if_neg (by simpa using hab), nameLe_iff]
        simp [Ne.symm hab]

/-- A comparison by which a list can be sorted in one way only. -/
structure SortsUniquely {α : Type} (le : α → α → Bool) : Prop where
  trans : ∀ a b c : α, le a b = true → le b c = true → le a c = true
  total : ∀ a b : α, (le a b || le b a) = true
  antisymm : ∀ a b : α, le a b = true → le b a = true → a = b

theorem sortsUniquely_nameLe : SortsUniquely nameLe where
  trans a b c hab hbc := by
    rw [nameLe_iff, String.not_lt] at *
    exact String.le_trans hab hbc
  total a b := by
    rw [Bool.or_eq_true, nameLe_iff, nameLe_iff, String.not_lt, String.not_lt]
    exact String.le_total a b
  antisymm a b hab hba := by
    rw [nameLe_iff, String.not_lt] at *
    exact String.le_antisymm hab hba

theorem sortsUniquely_namesLe : SortsUniquely namesLe where
  trans a b c hab hbc := by
    rw [namesLe_iff, List.not_lt] at *
    exact List.le_trans hab hbc
  total a b := by
    rw [Bool.or_eq_true, namesLe_iff, namesLe_iff, List.not_lt, List.not_lt]
    exact List.le_total a b
  antisymm a b hab hba := by
    rw [namesLe_iff, List.not_lt] at *
    exact List.le_antisymm hab hba

namespace SortsUniquely

variable {α : Type} {le : α → α → Bool}

/-- What arrives in another order is sorted to the same list. -/
theorem mergeSort_eq (h : SortsUniquely le) {l l' : List α} (hperm : l.Perm l') :
    l.mergeSort le = l'.mergeSort le := by
  refine List.Perm.eq_of_pairwise (fun a b _ _ => h.antisymm a b)
    (List.pairwise_mergeSort h.trans h.total l) (List.pairwise_mergeSort h.trans h.total l') ?_
  exact (List.mergeSort_perm l le).trans (hperm.trans (List.mergeSort_perm l' le).symm)

/-- A list without repetitions is strictly ascending once it is sorted. -/
theorem pairwise_of_nodup (h : SortsUniquely le) {l : List α} (hnodup : l.Nodup) :
    (l.mergeSort le).Pairwise fun a b => le b a = false := by
  have hsorted := List.pairwise_mergeSort h.trans h.total l
  have hdistinct : (l.mergeSort le).Nodup := (List.mergeSort_perm l le).nodup_iff.mpr hnodup
  refine (hsorted.and hdistinct).imp fun {a b} hab => ?_
  cases hba : le b a with
  | false => rfl
  | true => exact absurd (h.antisymm a b hab.1 hba) hab.2

end SortsUniquely

/-- Different names are sorted into strictly ascending order. -/
theorem pairwise_mergeSort_nameLe {l : List String} (h : l.Nodup) :
    (l.mergeSort nameLe).Pairwise NameBefore := by
  refine (sortsUniquely_nameLe.pairwise_of_nodup h).imp fun {a b} hba => ?_
  have hlt : ¬¬a < b := by
    rw [← nameLe_iff, hba]
    exact Bool.false_ne_true
  exact nameBytes_lt_iff.mpr (Decidable.not_not.mp hlt)

theorem lex_nameBefore_iff {as bs : List String} : List.Lex NameBefore as bs ↔ as < bs := by
  have hsame : NameBefore = fun a b => a < b := by
    funext a b
    exact propext nameBytes_lt_iff
  rw [hsame]
  exact Iff.rfl

/-- Different lists of names are sorted into strictly ascending order, the first place where
they differ being decisive. -/
theorem pairwise_mergeSort_namesLe {l : List (List String)} (h : l.Nodup) :
    (l.mergeSort namesLe).Pairwise (List.Lex NameBefore) := by
  refine (sortsUniquely_namesLe.pairwise_of_nodup h).imp fun {as bs} hba => ?_
  have hlt : ¬¬as < bs := by
    rw [← namesLe_iff, hba]
    exact Bool.false_ne_true
  exact lex_nameBefore_iff.mpr (Decidable.not_not.mp hlt)

/-! ## Paths -/

namespace Path

/-- A path is listed no later than another one if its names are no greater in bytes. -/
theorem le_iff {as bs : List RawPath} :
    le as bs = true ↔ as.map RawPath.bytes ≤ bs.map RawPath.bytes := by
  unfold le
  rw [Bool.not_eq_true', decide_eq_false_iff_not]
  exact List.not_lt

/-- Paths are told apart by the bytes of their names. -/
theorem map_bytes_inj {as bs : List RawPath} :
    as.map RawPath.bytes = bs.map RawPath.bytes ↔ as = bs := by
  refine List.map_inj_right fun a b h => ?_
  cases a
  cases b
  exact congrArg RawPath.mk h

theorem sortsUniquely_le : SortsUniquely le where
  trans a b c hab hbc := by
    rw [le_iff] at *
    exact List.le_trans hab hbc
  total a b := by
    rw [Bool.or_eq_true, le_iff, le_iff]
    exact List.le_total _ _
  antisymm a b hab hba := by
    rw [le_iff] at *
    exact map_bytes_inj.mp (List.le_antisymm hab hba)

/-- Different paths are sorted into strictly ascending order. -/
theorem pairwise_mergeSort_le {l : List (List RawPath)} (h : l.Nodup) :
    (l.mergeSort le).Pairwise Before := by
  refine (sortsUniquely_le.pairwise_of_nodup h).imp fun {as bs} hba => ?_
  unfold le at hba
  rw [Bool.not_eq_false', decide_eq_true_eq] at hba
  exact hba

end Path

end ClassDiagram
