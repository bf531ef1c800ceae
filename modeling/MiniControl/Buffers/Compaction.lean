import Mathlib.Data.List.Basic
import Mathlib.Tactic.Common

/-!
# Filtering a slice in place

A loop reads the cells of a slice one after another and writes the values that it
keeps to the start of the same cells. It never writes ahead of what it has read.
-/

namespace Buffers

variable {α : Type*} (p : α → Bool)

/-- One round: the cells, and how many values were kept. -/
def compactCell (s : List α × ℕ) (i : ℕ) : List α × ℕ :=
  match s.1[i]? with
  | some x => if p x then (s.1.set s.2 x, s.2 + 1) else s
  | none => s

/-- The values that the loop has kept at its end. -/
def filterInPlace (xs : List α) : List α :=
  let s := (List.range xs.length).foldl (compactCell p) (xs, 0)
  s.1.take s.2

/-- After `i` rounds, the kept values of the first `i` cells stand at the start, and the
cells that were not read are as they were. -/
structure Compacted (xs : List α) (i : ℕ) (s : List α × ℕ) : Prop where
  le : s.2 ≤ i
  kept : s.1.take s.2 = (xs.take i).filter p
  rest : s.1.drop i = xs.drop i

variable {p} {xs : List α} {i : ℕ} {s : List α × ℕ}

/-- One round keeps the invariant. -/
theorem Compacted.next (h : Compacted p xs i s) (hi : i < xs.length) :
    Compacted p xs (i + 1) (compactCell p s i) := by
  have hread : s.1[i]? = some xs[i] := by
    have hhead := congrArg (·[0]?) h.rest
    simpa [List.getElem?_drop, hi] using hhead
  have hlength : i < s.1.length := (List.getElem?_eq_some_iff.mp hread).1
  have hrest : s.1.drop (i + 1) = xs.drop (i + 1) := by
    rw [← List.drop_drop, ← List.drop_drop, h.rest]
  have htake : xs.take (i + 1) = xs.take i ++ [xs[i]] := List.take_succ_eq_append_getElem hi
  rw [compactCell, hread]
  dsimp only
  split_ifs with hp
  · refine ⟨Nat.succ_le_succ h.le, ?_, ?_⟩
    · have hwrite : s.2 < s.1.length := Nat.lt_of_le_of_lt h.le hlength
      have hkept : [xs[i]].filter p = [xs[i]] := by simp [hp]
      rw [htake, List.filter_append, hkept, ← h.kept, List.take_add_one,
        List.take_set_of_le (Nat.le_refl _), List.getElem?_set_self hwrite]
      rfl
    · rw [List.drop_set_of_lt (Nat.lt_succ_of_le h.le), hrest]
  · refine ⟨Nat.le_succ_of_le h.le, ?_, hrest⟩
    rw [htake, List.filter_append, h.kept]
    simp [hp]

/-- The loop computes the filter. -/
theorem filterInPlace_eq (xs : List α) : filterInPlace p xs = xs.filter p := by
  have hloop : ∀ i ≤ xs.length,
      Compacted p xs i ((List.range i).foldl (compactCell p) (xs, 0)) := by
    intro i
    induction i with
    | zero => exact fun _ => ⟨Nat.le_refl _, rfl, rfl⟩
    | succ i ih =>
      intro hi
      rw [List.range_succ, List.foldl_append]
      exact (ih (by omega)).next hi
  have hend := (hloop xs.length (Nat.le_refl _)).kept
  rwa [List.take_length] at hend

end Buffers
