import Mathlib.Data.List.Sort
import Mathlib.Tactic.Common

/-!
# Rows in an order

A query lists its rows by several keys, each of which decides where the ones before it
leave a tie. Rows that the keys tell apart have only one such list.
-/

namespace Tables

variable {Row : Type*} {keys : List (Row → Row → Bool)} {a b c : Row} {rows rows' : List Row}

/-- A comparison that a query can sort by. -/
structure IsKey (le : Row → Row → Bool) : Prop where
  total : ∀ a b, le a b = true ∨ le b a = true
  trans : ∀ a b c, le a b = true → le b c = true → le a c = true

/-- `ORDER BY`: the first key, and the other keys where it leaves a tie. -/
def orderBy : List (Row → Row → Bool) → Row → Row → Bool
  | [], _, _ => true
  | le :: rest, a, b => le a b && (!le b a || orderBy rest a b)

/-- The first key decides, unless it finds two rows equal. -/
theorem orderBy_cons {le : Row → Row → Bool} :
    orderBy (le :: keys) a b = true ↔
      le a b = true ∧ (le b a = true → orderBy keys a b = true) := by
  simp only [orderBy, Bool.and_eq_true, Bool.or_eq_true, Bool.not_eq_true']
  refine and_congr_right fun _ => ?_
  cases le b a <;> simp

/-- Rows are comparable if they are for every key. -/
theorem orderBy_total (h : ∀ le ∈ keys, IsKey le) (a b : Row) :
    orderBy keys a b = true ∨ orderBy keys b a = true := by
  induction keys with
  | nil => exact .inl rfl
  | cons le rest ih =>
    have hrest := ih fun le hle => h le (List.mem_cons_of_mem _ hle)
    have htotal := (h le List.mem_cons_self).total a b
    simp only [orderBy_cons]
    by_cases hab : le a b = true <;> by_cases hba : le b a = true <;> simp_all

/-- The order by several keys is transitive if each key is. -/
theorem orderBy_trans (h : ∀ le ∈ keys, IsKey le) (hab : orderBy keys a b = true)
    (hbc : orderBy keys b c = true) : orderBy keys a c = true := by
  induction keys with
  | nil => rfl
  | cons le rest ih =>
    have htrans := (h le List.mem_cons_self).trans
    obtain ⟨hab, hab'⟩ := orderBy_cons.mp hab
    obtain ⟨hbc, hbc'⟩ := orderBy_cons.mp hbc
    refine orderBy_cons.mpr ⟨htrans a b c hab hbc, fun hca => ?_⟩
    exact ih (fun le hle => h le (List.mem_cons_of_mem _ hle)) (hab' (htrans b c a hbc hca))
      (hbc' (htrans c a b hca hab))

/-- Rows that stand before each other are tied in every key. -/
theorem ties_of_orderBy (hab : orderBy keys a b = true) (hba : orderBy keys b a = true) :
    ∀ le ∈ keys, le a b = true ∧ le b a = true := by
  induction keys with
  | nil => exact fun le hle => absurd hle List.not_mem_nil
  | cons le rest ih =>
    obtain ⟨hab, hab'⟩ := orderBy_cons.mp hab
    obtain ⟨hba, hba'⟩ := orderBy_cons.mp hba
    intro le' hle
    rcases List.mem_cons.mp hle with rfl | hle
    · exact ⟨hab, hba⟩
    · exact ih (hab' hba) (hba' hab) le' hle

/-- The rows in the order of the keys. -/
def sortBy (keys : List (Row → Row → Bool)) (rows : List Row) : List Row :=
  rows.insertionSort fun a b => orderBy keys a b

/-- Sorting keeps the rows. -/
theorem perm_sortBy (keys : List (Row → Row → Bool)) (rows : List Row) :
    (sortBy keys rows).Perm rows :=
  rows.perm_insertionSort _

/-- Sorting brings the rows into the order of the keys. -/
theorem pairwise_sortBy (h : ∀ le ∈ keys, IsKey le) (rows : List Row) :
    (sortBy keys rows).Pairwise fun a b => orderBy keys a b = true := by
  have : Std.Total fun a b => orderBy keys a b = true := ⟨orderBy_total h⟩
  have : IsTrans Row fun a b => orderBy keys a b = true := ⟨fun _ _ _ => orderBy_trans h⟩
  exact rows.pairwise_insertionSort _

/-- Rows that the keys tell apart have one order. -/
theorem eq_of_orderBy (hperm : rows.Perm rows')
    (hrows : rows.Pairwise fun a b => orderBy keys a b = true)
    (hrows' : rows'.Pairwise fun a b => orderBy keys a b = true)
    (hties : ∀ a ∈ rows, ∀ b ∈ rows, (∀ le ∈ keys, le a b = true ∧ le b a = true) → a = b) :
    rows = rows' := by
  refine hperm.eq_of_pairwise ?_ hrows hrows'
  intro a b ha hb hab hba
  exact hties a ha b (hperm.mem_iff.mpr hb) (ties_of_orderBy hab hba)

/-- A query answers the same in tables with the same rows. -/
theorem sortBy_eq (h : ∀ le ∈ keys, IsKey le) (hperm : rows.Perm rows')
    (hties : ∀ a ∈ rows, ∀ b ∈ rows, (∀ le ∈ keys, le a b = true ∧ le b a = true) → a = b) :
    sortBy keys rows = sortBy keys rows' := by
  have hmem : ∀ {a}, a ∈ sortBy keys rows → a ∈ rows := (perm_sortBy keys rows).mem_iff.mp
  refine eq_of_orderBy ?_ (pairwise_sortBy h rows) (pairwise_sortBy h rows')
    fun a ha b hb => hties a (hmem ha) b (hmem hb)
  exact (perm_sortBy keys rows).trans (hperm.trans (perm_sortBy keys rows').symm)

/-- What two tables have in common on `p`, they list in the same order. -/
theorem filter_sortBy_eq (h : ∀ le ∈ keys, IsKey le) {p : Row → Bool}
    (hperm : (rows.filter p).Perm (rows'.filter p))
    (hties : ∀ a ∈ rows, ∀ b ∈ rows, (∀ le ∈ keys, le a b = true ∧ le b a = true) → a = b) :
    (sortBy keys rows).filter p = (sortBy keys rows').filter p := by
  have hmem : ∀ {a}, a ∈ (sortBy keys rows).filter p → a ∈ rows := fun ha =>
    (perm_sortBy keys rows).mem_iff.mp (List.mem_filter.mp ha).1
  refine eq_of_orderBy ?_ ((pairwise_sortBy h rows).filter p) ((pairwise_sortBy h rows').filter p)
    fun a ha b hb => hties a (hmem ha) b (hmem hb)
  exact ((perm_sortBy keys rows).filter p).trans
    (hperm.trans ((perm_sortBy keys rows').filter p).symm)

end Tables
