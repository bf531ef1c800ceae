import Mathlib.Algebra.GroupWithZero.Nat
import Mathlib.Data.Int.Order.Basic
import Mathlib.Data.List.DropRight
import Mathlib.Order.Lattice
import Mathlib.Tactic.Common

/-!
# Texts in the order of their characters

A collation that gives every character a rank compares two texts at the first place
where they differ. Numbers that are written with a fixed count of digits stand in the
order of the numbers. Without the zeros at the end this holds where no text is
continued by the other.
-/

namespace Text

/-- Two keys decide a comparison, the second one where the first leaves a tie. -/
theorem compare_eq_then {α β γ : Type*} [LinearOrder α] [LinearOrder β] [LinearOrder γ]
    {a b : α} {first first' : β} {second second' : γ}
    (hlt : a < b → first < first' ∨ first = first' ∧ second < second')
    (heq : a = b → first = first' ∧ second = second')
    (hgt : b < a → first' < first ∨ first' = first ∧ second' < second) :
    compare a b = (compare first first').then (compare second second') := by
  rcases lt_trichotomy a b with h | h | h
  · rw [compare_lt_iff_lt.mpr h]
    rcases hlt h with hfirst | ⟨rfl, hsecond⟩
    · rw [compare_lt_iff_lt.mpr hfirst]
      rfl
    · rw [compare_eq_iff_eq.mpr rfl, compare_lt_iff_lt.mpr hsecond]
      rfl
  · obtain ⟨rfl, rfl⟩ := heq h
    rw [compare_eq_iff_eq.mpr h, compare_eq_iff_eq.mpr rfl, compare_eq_iff_eq.mpr rfl]
    rfl
  · rw [compare_gt_iff_gt.mpr h]
    rcases hgt h with hfirst | ⟨rfl, hsecond⟩
    · rw [compare_gt_iff_gt.mpr hfirst]
      rfl
    · rw [compare_eq_iff_eq.mpr rfl, compare_gt_iff_gt.mpr hsecond]
      rfl

/-- The comparison of two texts by the ranks of their characters. -/
def collate (rank : Char → ℕ) : List Char → List Char → Ordering :=
  List.compareLex (compareOn rank)

instance (rank : Char → ℕ) : Std.TransCmp (collate rank) :=
  inferInstanceAs (Std.TransCmp (List.compareLex (compareOn rank)))

/-- The digits of a number in a field of a fixed width. -/
def fixedDigits : ℕ → ℕ → List Char
  | 0, _ => []
  | width + 1, n => fixedDigits width (n / 10) ++ [Nat.digitChar (n % 10)]

/-- A number of fixed width has this width, whatever the number is. -/
@[simp] theorem length_fixedDigits (width n : ℕ) : (fixedDigits width n).length = width := by
  induction width generalizing n with
  | zero => rfl
  | succ width ih => simp [fixedDigits, ih]

/-- A number is written in digits. -/
theorem isDigit_of_mem_fixedDigits {width n : ℕ} {c : Char} (hc : c ∈ fixedDigits width n) :
    c.isDigit = true := by
  induction width generalizing n with
  | zero => exact absurd hc List.not_mem_nil
  | succ width ih =>
    rcases List.mem_append.mp hc with hc | hc
    · exact ih hc
    · rw [List.mem_singleton.mp hc, Nat.isDigit_digitChar]
      exact decide_eq_true (Nat.mod_lt n (by omega))

/-- A rank that has the digits in their order. -/
def RanksDigits (rank : Char → ℕ) : Prop :=
  ∀ c d : Char, c.isDigit = true → d.isDigit = true → c.toNat < d.toNat → rank c < rank d

section Collation

variable {rank : Char → ℕ} {us vs : List Char} {c d : Char}

/-- The first characters decide, unless they have the same rank. -/
theorem collate_cons : collate rank (c :: us) (d :: vs) =
    (compare (rank c) (rank d)).then (collate rank us vs) :=
  List.compareLex_cons_cons

/-- A common first character does not matter. -/
theorem collate_cons_self : collate rank (c :: us) (c :: vs) = collate rank us vs := by
  rw [collate_cons, Nat.compare_eq_eq.mpr rfl]
  rfl

/-- Texts of the same length decide before what follows them. -/
theorem collate_append (hlength : us.length = vs.length) (us' vs' : List Char) :
    collate rank (us ++ us') (vs ++ vs') =
      (collate rank us vs).then (collate rank us' vs') := by
  induction us generalizing vs with
  | nil =>
    rw [List.length_nil, eq_comm, List.length_eq_zero_iff] at hlength
    subst hlength
    rfl
  | cons c us ih =>
    cases vs with
    | nil => cases hlength
    | cons d vs =>
      have htail : us.length = vs.length := Nat.succ.inj hlength
      rw [List.cons_append, List.cons_append, collate_cons, collate_cons, ih htail,
        Ordering.then_assoc]

/-- A text is equal to itself. -/
theorem collate_self (us : List Char) : collate rank us us = .eq := by
  induction us with
  | nil => rfl
  | cons c us ih => rw [collate_cons_self, ih]

/-- A common start does not decide. -/
theorem collate_append_left (shared us vs : List Char) :
    collate rank (shared ++ us) (shared ++ vs) = collate rank us vs := by
  rw [collate_append rfl, collate_self]
  rfl

/-- The first difference decides. -/
theorem collate_of_ne (shared us vs : List Char) (hne : rank c ≠ rank d) :
    collate rank (shared ++ c :: us) (shared ++ d :: vs) = compare (rank c) (rank d) := by
  rw [collate_append_left, collate_cons]
  rcases Nat.lt_or_gt_of_ne hne with h | h
  · rw [Nat.compare_eq_lt.mpr h]
    rfl
  · rw [Nat.compare_eq_gt.mpr h]
    rfl

/-- Two texts are equal, differ at a place that both have, or one continues the other. -/
theorem exists_first_difference (us vs : List Char) :
    us = vs ∨
    (∃ shared c d us' vs', c ≠ d ∧ us = shared ++ c :: us' ∧ vs = shared ++ d :: vs') ∨
    (∃ c, us ++ [c] <+: vs) ∨ ∃ c, vs ++ [c] <+: us := by
  induction us generalizing vs with
  | nil =>
    cases vs with
    | nil => exact .inl rfl
    | cons d vs => exact .inr (.inr (.inl ⟨d, vs, rfl⟩))
  | cons c us ih =>
    cases vs with
    | nil => exact .inr (.inr (.inr ⟨c, us, rfl⟩))
    | cons d vs =>
      by_cases hcd : c = d
      · subst hcd
        rcases ih vs with rfl | ⟨shared, a, b, us', vs', hne, rfl, rfl⟩ | ⟨a, h⟩ | ⟨a, h⟩
        · exact .inl rfl
        · exact .inr (.inl ⟨c :: shared, a, b, us', vs', hne, rfl, rfl⟩)
        · exact .inr (.inr (.inl ⟨a, List.cons_prefix_cons.mpr ⟨rfl, h⟩⟩))
        · exact .inr (.inr (.inr ⟨a, List.cons_prefix_cons.mpr ⟨rfl, h⟩⟩))
      · exact .inr (.inl ⟨[], c, d, us, vs, hcd, rfl, rfl⟩)

end Collation

section Digits

variable {rank : Char → ℕ} {m n : ℕ}

/-- Different digits have different ranks. -/
theorem RanksDigits.ne (h : RanksDigits rank) {c d : Char} (hc : c.isDigit = true)
    (hd : d.isDigit = true) (hne : c ≠ d) : rank c ≠ rank d := by
  rcases Nat.lt_or_gt_of_ne (mt Char.toNat_inj.mp hne) with hlt | hgt
  · exact (h c d hc hd hlt).ne
  · exact (h d c hd hc hgt).ne'

/-- The digits rank by their values. -/
theorem RanksDigits.digitChar_lt (h : RanksDigits rank) (hn : n < 10) (hmn : m < n) :
    rank (Nat.digitChar m) < rank (Nat.digitChar n) := by
  have hm : m < 10 := hmn.trans hn
  refine h _ _ ?_ ?_ ?_
  · rw [Nat.isDigit_digitChar, decide_eq_true hm]
  · rw [Nat.isDigit_digitChar, decide_eq_true hn]
  · rw [Nat.toNat_digitChar_of_lt_ten hm, Nat.toNat_digitChar_of_lt_ten hn]
    omega

/-- Digits stand in the order of their numbers. -/
theorem RanksDigits.compare_digitChar (h : RanksDigits rank) (hm : m < 10) (hn : n < 10) :
    compare (rank (Nat.digitChar m)) (rank (Nat.digitChar n)) = compare m n := by
  rcases Nat.lt_trichotomy m n with hlt | rfl | hgt
  · rw [Nat.compare_eq_lt.mpr (h.digitChar_lt hn hlt), Nat.compare_eq_lt.mpr hlt]
  · rw [Nat.compare_eq_eq.mpr rfl, Nat.compare_eq_eq.mpr rfl]
  · rw [Nat.compare_eq_gt.mpr (h.digitChar_lt hm hgt), Nat.compare_eq_gt.mpr hgt]

/-- Fields of one width stand in the order of their numbers. -/
theorem RanksDigits.collate_fixedDigits (h : RanksDigits rank) {width : ℕ} (hm : m < 10 ^ width)
    (hn : n < 10 ^ width) :
    collate rank (fixedDigits width m) (fixedDigits width n) = compare m n := by
  induction width generalizing m n with
  | zero =>
    obtain rfl : m = 0 := by omega
    obtain rfl : n = 0 := by omega
    rfl
  | succ width ih =>
    rw [Nat.pow_succ] at hm hn
    have hlast : collate rank [Nat.digitChar (m % 10)] [Nat.digitChar (n % 10)] =
        compare (m % 10) (n % 10) := by
      rw [collate_cons, h.compare_digitChar (by omega) (by omega)]
      exact Ordering.then_eq
    rw [fixedDigits, fixedDigits, collate_append (by simp), ih (by omega) (by omega), hlast]
    exact (compare_eq_then (by omega) (by omega) (by omega)).symm

/-- A field and what follows it. -/
theorem RanksDigits.collate_field (h : RanksDigits rank) {width : ℕ} (hm : m < 10 ^ width)
    (hn : n < 10 ^ width) (us vs : List Char) :
    collate rank (fixedDigits width m ++ us) (fixedDigits width n ++ vs) =
      (compare m n).then (collate rank us vs) := by
  rw [collate_append (by simp), h.collate_fixedDigits hm hn]

/-- Zeros stand before all other digits. -/
theorem RanksDigits.collate_zeros_ne_gt (h : RanksDigits rank) {ds : List Char}
    (hds : ∀ d ∈ ds, d.isDigit = true) :
    collate rank (List.replicate ds.length '0') ds ≠ .gt := by
  induction ds with
  | nil => exact Ordering.noConfusion
  | cons d ds ih =>
    have hrest := ih fun d hd => hds d (List.mem_cons_of_mem _ hd)
    rw [List.length_cons, List.replicate_succ, collate_cons]
    by_cases hd : d = '0'
    · subst hd
      rwa [Nat.compare_eq_eq.mpr rfl]
    · have hfirst : '0'.toNat < d.toNat := by
        have hdigit := Char.isDigit_iff_toNat.mp (hds d List.mem_cons_self)
        have hne : d.toNat ≠ '0'.toNat := mt Char.toNat_inj.mp hd
        exact lt_of_le_of_ne hdigit.1 hne.symm
      rw [Nat.compare_eq_lt.mpr (h '0' d rfl (hds d List.mem_cons_self) hfirst)]
      exact Ordering.noConfusion

end Digits

end Text
