import Mathlib.Data.List.DropRight
import Mathlib.Data.List.Rotate
import Mathlib.Data.Nat.Notation

/-!
# Rings as bounded logs

A ring is a closed chain of cells seen from its current cell. Writing the current
cell and stepping to the next one over and over keeps the last values that were
written, as many as there are cells; stepping back by their number and walking
forward again reads them in the order in which they were written.
-/

namespace Buffers

variable {α : Type*}

/-- A ring, as the values of its cells from the current cell on. -/
structure Ring (α : Type*) where
  cells : List (Option α)
  deriving DecidableEq

namespace Ring

/-- A ring of empty cells. -/
def new (n : ℕ) : Ring α := ⟨List.replicate n none⟩

/-- The value of the current cell. -/
def value (r : Ring α) : Option α := r.cells.head?.join

/-- Write the current cell. -/
def put (r : Ring α) (x : α) : Ring α := ⟨r.cells.set 0 (some x)⟩

/-- The ring seen from the next cell. -/
def next (r : Ring α) : Ring α := ⟨r.cells.rotate 1⟩

/-- The ring seen from the cell `k` cells back. -/
def back (r : Ring α) (k : ℕ) : Ring α :=
  ⟨r.cells.rotate (r.cells.length - k % r.cells.length)⟩

/-- Walk over `k` cells and collect the values that meet `p`. -/
def collect (p : α → Bool) : ℕ → Ring α → List α
  | 0, _ => []
  | k + 1, r => (r.value.filter p).toList ++ r.next.collect p k

/-- The ring has `n` cells, and `xs` are the values written last. -/
structure Holds (r : Ring α) (n : ℕ) (xs : List α) : Prop where
  length : xs.length ≤ n
  cells : r.cells = List.replicate (n - xs.length) none ++ xs.map some

/-- A new ring holds nothing. -/
theorem holds_new (n : ℕ) : (new n : Ring α).Holds n [] :=
  ⟨Nat.zero_le n, by simp [new]⟩

/-- Writing and stepping on keeps the last values. -/
theorem Holds.push {r : Ring α} {n : ℕ} {xs : List α} (h : r.Holds n xs) (hn : 0 < n) (x : α) :
    (r.put x).next.Holds n ((xs ++ [x]).rtake n) := by
  obtain ⟨hlength, hcells⟩ := h
  by_cases hfull : xs.length = n
  · -- the current cell is the oldest one
    obtain ⟨y, ys, rfl⟩ := List.exists_cons_of_length_pos (hfull ▸ hn)
    have htake : ((y :: ys) ++ [x]).rtake n = ys ++ [x] := by
      simp only [List.rtake, List.length_append, List.length_cons, List.length_nil] at hfull ⊢
      rw [show ys.length + 1 + (0 + 1) - n = 1 by omega]
      rfl
    rw [htake]
    have hempty : n - (y :: ys).length = 0 := by omega
    have hempty' : n - (ys ++ [x]).length = 0 := by
      simp only [List.length_append, List.length_cons, List.length_nil] at hempty ⊢
      omega
    refine ⟨by simpa using hfull.le, ?_⟩
    rw [hempty', put, next, hcells, hempty]
    simp
  · -- the current cell is empty
    have htake : (xs ++ [x]).rtake n = xs ++ [x] := by
      simp only [List.rtake, List.length_append, List.length_cons, List.length_nil]
      rw [show xs.length + (0 + 1) - n = 0 by omega, List.drop_zero]
    rw [htake]
    refine ⟨by simp; omega, ?_⟩
    obtain ⟨k, hk⟩ : ∃ k, n - xs.length = k + 1 := ⟨n - xs.length - 1, by omega⟩
    have hk' : n - (xs ++ [x]).length = k := by simp; omega
    simp only [put, next, hcells, hk, hk']
    simp [List.replicate_succ]

/-- Walking over the first cells collects their values. -/
theorem collect_eq (p : α → Bool) {k : ℕ} {r : Ring α} {xs : List α} {rest : List (Option α)}
    (hcells : r.cells = xs.map some ++ rest) (hk : xs.length = k) :
    r.collect p k = xs.filter p := by
  induction k generalizing r xs rest with
  | zero =>
    rw [List.length_eq_zero_iff.mp hk]
    rfl
  | succ k ih =>
    obtain ⟨x, xs, rfl⟩ := List.exists_cons_of_length_eq_add_one hk
    have hnext : r.next.cells = xs.map some ++ (rest ++ [some x]) := by
      simp [next, hcells]
    have hvalue : r.value = some x := by simp [value, hcells]
    rw [collect, ih hnext (by simpa using hk), hvalue, List.filter_cons]
    cases hx : p x with
    | true => simp [Option.filter, hx]
    | false => simp [Option.filter, hx]

/-- Reading a ring from its oldest value gives the values in their order. -/
theorem Holds.collect {r : Ring α} {n : ℕ} {xs : List α} (h : r.Holds n xs) (p : α → Bool) :
    (r.back xs.length).collect p xs.length = xs.filter p := by
  obtain ⟨hlength, hcells⟩ := h
  have hsize : r.cells.length = n := by simp [hcells]; omega
  have hback : (r.back xs.length).cells = xs.map some ++ List.replicate (n - xs.length) none := by
    rw [back, hsize, hcells]
    by_cases hfull : xs.length = n
    · have hrotate : (xs.map some).rotate n = xs.map some := by
        rw [← hfull, ← List.length_map (f := some), List.rotate_length]
      simp [hfull, hrotate]
    · have hsteps : n - xs.length % n =
          (List.replicate (n - xs.length) (none : Option α)).length := by
        rw [Nat.mod_eq_of_lt (by omega), List.length_replicate]
      rw [hsteps, List.rotate_append_length_eq]
  exact collect_eq p hback rfl

end Ring

/-- Of a log that is cut after every value only the last cut counts. -/
theorem rtake_rtake_append (n : ℕ) (xs ys : List α) :
    (xs.rtake n ++ ys).rtake n = (xs ++ ys).rtake n := by
  simp only [List.rtake, List.length_append, List.length_drop, List.drop_append, List.drop_drop]
  congr 2 <;> omega

end Buffers
