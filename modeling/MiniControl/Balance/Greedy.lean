import Mathlib.Algebra.Order.BigOperators.Group.Finset

/-!
# Filling bins evenly

Bins of limited capacity are filled one item at a time, each item into a bin with the
least content among those with room. The contents then differ by at most one item,
apart from bins that are full, and there is room until everything is full.
-/

namespace Balance

variable {Bin : Type*} {bins : Finset Bin} {capacity content content' : Bin → ℕ} {b : Bin}

/-- No bin holds more than it can, and none is more than one item ahead of a bin that
is not full. -/
structure Even (bins : Finset Bin) (capacity content : Bin → ℕ) : Prop where
  fits : ∀ b ∈ bins, content b ≤ capacity b
  even : ∀ b ∈ bins, ∀ d ∈ bins, content b ≤ content d + 1 ∨ content d = capacity d

/-- One more item in the bin `b`, which has the least content of those with room. -/
structure Adds (bins : Finset Bin) (capacity content content' : Bin → ℕ) (b : Bin) : Prop where
  mem : b ∈ bins
  room : content b < capacity b
  least : ∀ d ∈ bins, content d < capacity d → content b ≤ content d
  self : content' b = content b + 1
  other : ∀ d ∈ bins, d ≠ b → content' d = content d

/-- An item in the least full bin keeps the contents even. -/
theorem Even.adds (h : Even bins capacity content) (hadds : Adds bins capacity content content' b) :
    Even bins capacity content' := by
  constructor
  · intro d hd
    by_cases hdb : d = b
    · rw [hdb, hadds.self]
      exact hadds.room
    · rw [hadds.other d hd hdb]
      exact h.fits d hd
  · intro d hd e he
    have hfits := h.fits e he
    by_cases hdb : d = b
    · by_cases heb : e = b
      · rw [hdb, heb]
        exact .inl (Nat.le_succ _)
      · -- The bin that got the item had no more than any bin with room.
        rw [hdb, hadds.self, hadds.other e he heb]
        by_cases hroom : content e < capacity e
        · exact .inl (Nat.succ_le_succ (hadds.least e he hroom))
        · exact .inr (by omega)
    · rw [hadds.other d hd hdb]
      by_cases heb : e = b
      · have hroom := hadds.room
        rw [heb, hadds.self]
        rcases h.even d hd b hadds.mem with hle | hfull
        · exact .inl (by omega)
        · exact absurd hfull (by omega)
      · rw [hadds.other e he heb]
        exact h.even d hd e he

/-- The contents of all bins grow by the one item. -/
theorem Adds.sum [DecidableEq Bin] (hadds : Adds bins capacity content content' b) :
    ∑ d ∈ bins, content' d = ∑ d ∈ bins, content d + 1 := by
  rw [← Finset.add_sum_erase bins content hadds.mem, ← Finset.add_sum_erase bins content' hadds.mem,
    hadds.self]
  have hrest : ∑ d ∈ bins.erase b, content' d = ∑ d ∈ bins.erase b, content d := by
    refine Finset.sum_congr rfl fun d hd => ?_
    obtain ⟨hne, hmem⟩ := Finset.mem_erase.mp hd
    exact hadds.other d hmem hne
  omega

/-- There is room in a bin exactly as long as there is room in all of them together. -/
theorem Even.exists_room (h : Even bins capacity content) :
    (∃ b ∈ bins, content b < capacity b) ↔ ∑ b ∈ bins, content b < ∑ b ∈ bins, capacity b :=
  ⟨Finset.sum_lt_sum h.fits, Finset.exists_lt_of_sum_lt⟩

end Balance
