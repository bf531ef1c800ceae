import Mathlib.Data.List.Nodup
import Mathlib.Data.Finset.Card
import Mathlib.Order.Interval.Finset.Nat
import Mathlib.Data.Int.Interval
import Mathlib.Tactic.Common

/-!
# Tables with a key

A table is the list of its rows, and a key is a function on rows. Updates and
deletions select their row by its key. The counting lemmas relate the number of
rows to the numbers that a column takes.
-/

namespace Tables

variable {Row Key : Type*} [DecidableEq Key] {key : Row → Key} {rows : List Row} {k : Key}
  {f : Row → Row} {r : Row} {p : Row → Bool} {k' : Key} {n : ℤ}

/-- Rewrite the rows with the given key. -/
def update (key : Row → Key) (k : Key) (f : Row → Row) (rows : List Row) : List Row :=
  rows.map fun r => if key r = k then f r else r

/-- Remove the rows with the given key. -/
def delete (key : Row → Key) (k : Key) (rows : List Row) : List Row :=
  rows.filter fun r => key r ≠ k

/-- Rows of an updated table come from rows of the table. -/
theorem mem_update :
    r ∈ update key k f rows ↔ ∃ old ∈ rows, (if key old = k then f old else old) = r :=
  List.mem_map

/-- An updated row is in the updated table. -/
theorem mem_update_of_mem (h : r ∈ rows) (hkey : key r = k) :
    f r ∈ update key k f rows :=
  mem_update.mpr ⟨r, h, if_pos hkey⟩

/-- Rows with other keys stay in an updated table. -/
theorem mem_update_of_ne (h : r ∈ rows) (hkey : key r ≠ k) :
    r ∈ update key k f rows :=
  mem_update.mpr ⟨r, h, if_neg hkey⟩

/-- An update that keeps the key leaves the rows with other keys. -/
theorem mem_update_iff_of_ne (hf : ∀ r, key r = k → key (f r) = k) (hkey : key r ≠ k) :
    r ∈ update key k f rows ↔ r ∈ rows := by
  refine ⟨fun h => ?_, fun h => mem_update_of_ne h hkey⟩
  obtain ⟨old, hold, heq⟩ := mem_update.mp h
  split_ifs at heq with hold'
  · exact absurd (heq ▸ hf old hold') hkey
  · exact heq ▸ hold

/-- Rows left by a deletion are the rows with other keys. -/
theorem mem_delete : r ∈ delete key k rows ↔ r ∈ rows ∧ key r ≠ k := by
  simp [delete]

/-- An update that keeps a condition does not change whether some row meets it. -/
theorem any_update (hp : ∀ r, p (f r) = p r) :
    (update key k f rows).any p = rows.any p := by
  rw [update, List.any_map]
  congr 1
  funext r
  dsimp only [Function.comp]
  split_ifs
  · exact hp r
  · rfl

omit [DecidableEq Key] in
/-- A condition that only rows with the key of `r` meet finds `r`. -/
theorem find?_eq_some (h : (rows.map key).Nodup) (hr : r ∈ rows) (hp : p r = true)
    (hkey : ∀ r' ∈ rows, p r' = true → key r' = key r) :
    rows.find? p = some r := by
  have hfind : ∃ found, rows.find? p = some found := by
    rw [← Option.isSome_iff_exists, List.find?_isSome]
    exact ⟨r, hr, hp⟩
  obtain ⟨found, hfound⟩ := hfind
  have hmem := List.mem_of_find?_eq_some hfound
  rw [hfound, List.inj_on_of_nodup_map h hmem hr (hkey found hmem (List.find?_some hfound))]

/-- An update that keeps the key does not change which row another key finds. -/
theorem find?_update_of_ne (hne : k ≠ k') (hf : ∀ r, key r = k → key (f r) = k) :
    (update key k f rows).find? (fun r => key r = k') = rows.find? (fun r => key r = k') := by
  induction rows with
  | nil => rfl
  | cons r rest ih =>
    rw [update, List.map_cons, List.find?_cons, List.find?_cons]
    by_cases hr : key r = k
    · have hother : ¬key r = k' := by rwa [hr]
      have hother' : ¬key (f r) = k' := by rwa [hf r hr]
      simp only [if_pos hr, hother, hother', decide_false]
      exact ih
    · rw [if_neg hr]
      by_cases hfound : key r = k'
      · simp only [hfound, decide_true]
      · simp only [hfound, decide_false]
        exact ih

/-- Neither does a deletion. -/
theorem find?_delete_of_ne (hne : k ≠ k') :
    (delete key k rows).find? (fun r => key r = k') = rows.find? (fun r => key r = k') := by
  rw [delete, List.find?_filter]
  congr 1
  funext r
  by_cases hr : key r = k'
  · simp [hr, Ne.symm hne]
  · simp [hr]

/-- A column that the update keeps has the same values afterwards. -/
theorem map_update {β : Type*} {column : Row → β}
    (h : ∀ r ∈ rows, key r = k → column (f r) = column r) :
    (update key k f rows).map column = rows.map column := by
  rw [update, List.map_map]
  apply List.map_congr_left
  intro r hr
  by_cases hkey : key r = k
  · simp [hkey, h r hr hkey]
  · simp [hkey]

/-- Deleting rows keeps the other values of a column distinct. -/
theorem nodup_map_delete {β : Type*} {column : Row → β} (h : (rows.map column).Nodup) :
    ((delete key k rows).map column).Nodup :=
  h.sublist (List.filter_sublist.map column)

/-- A new value keeps the values of a column distinct. -/
theorem nodup_map_append {β : Type*} {column : Row → β} (h : (rows.map column).Nodup)
    (hr : ∀ old ∈ rows, column old ≠ column r) : ((rows ++ [r]).map column).Nodup := by
  rw [List.map_append, List.map_singleton]
  refine List.Nodup.append h (List.nodup_singleton _) ?_
  intro x hx hx'
  obtain ⟨old, hold, rfl⟩ := List.mem_map.mp hx
  exact hr old hold (List.mem_singleton.mp hx')

/-- Distinct numbers from `0` below `n` are at most `n` many. -/
theorem length_le_of_nodup_of_lt {column : Row → ℤ} (h : (rows.map column).Nodup)
    (hrange : ∀ r ∈ rows, 0 ≤ column r ∧ column r < n) : (rows.length : ℤ) ≤ max 0 n := by
  have hsub : (rows.map column).toFinset ⊆ Finset.Ico 0 n := by
    intro x hx
    obtain ⟨r, hr, rfl⟩ := List.mem_map.mp (List.mem_toFinset.mp hx)
    exact Finset.mem_Ico.mpr (hrange r hr)
  have hcard := Finset.card_le_card hsub
  rw [List.toFinset_card_of_nodup h, List.length_map, Int.card_Ico] at hcard
  omega

/-- A column that takes every number from `0` below `n` has at least `n` rows. -/
theorem le_length_of_forall_mem (column : Row → ℤ)
    (h : ∀ x, 0 ≤ x → x < n → ∃ r ∈ rows, column r = x) : n ≤ rows.length := by
  have hsub : Finset.Ico 0 n ⊆ (rows.map column).toFinset := by
    intro x hx
    obtain ⟨hlo, hhi⟩ := Finset.mem_Ico.mp hx
    obtain ⟨r, hr, rfl⟩ := h x hlo hhi
    exact List.mem_toFinset.mpr (List.mem_map_of_mem hr)
  have hcard := (Finset.card_le_card hsub).trans (List.toFinset_card_le _)
  rw [Int.card_Ico, List.length_map] at hcard
  omega

section Agreement

variable {P : Row → Prop} {old new : Row} {rows' rows'' : List Row}

/-- The tables have the same rows among those that meet `P`. -/
def AgreeOn (P : Row → Prop) (rows rows' : List Row) : Prop :=
  ∀ r, P r → (r ∈ rows' ↔ r ∈ rows)

/-- Every table agrees with itself. -/
theorem AgreeOn.refl (P : Row → Prop) (rows : List Row) : AgreeOn P rows rows :=
  fun _ _ => Iff.rfl

/-- Agreement goes both ways. -/
theorem AgreeOn.symm (h : AgreeOn P rows rows') : AgreeOn P rows' rows :=
  fun r hr => (h r hr).symm

/-- Agreement is transitive. -/
theorem AgreeOn.trans (h : AgreeOn P rows rows') (h' : AgreeOn P rows' rows'') :
    AgreeOn P rows rows'' :=
  fun r hr => (h' r hr).trans (h r hr)

/-- Replacing one row outside `P` by another. -/
theorem agreeOn_update (hkeys : (rows.map key).Nodup) (hmem : old ∈ rows) (hold : ¬P old)
    (hnew : ¬P new) : AgreeOn P rows (update key (key old) (fun _ => new) rows) := by
  intro r hr
  constructor
  · intro h
    obtain ⟨before, hbefore, heq⟩ := mem_update.mp h
    split_ifs at heq
    · exact absurd (heq ▸ hr) hnew
    · exact heq ▸ hbefore
  · intro h
    refine mem_update_of_ne h fun hkey => hold ?_
    rwa [← List.inj_on_of_nodup_map hkeys h hmem hkey]

/-- Removing one row outside `P`. -/
theorem agreeOn_delete (hkeys : (rows.map key).Nodup) (hmem : old ∈ rows) (hold : ¬P old) :
    AgreeOn P rows (delete key (key old) rows) := by
  intro r hr
  refine ⟨fun h => (mem_delete.mp h).1, fun h => mem_delete.mpr ⟨h, fun hkey => hold ?_⟩⟩
  rwa [← List.inj_on_of_nodup_map hkeys h hmem hkey]

omit [DecidableEq Key] in
/-- Adding one row outside `P`. -/
theorem agreeOn_append (hnew : ¬P new) : AgreeOn P rows (rows ++ [new]) := by
  intro r hr
  rw [List.mem_append, List.mem_singleton]
  refine ⟨fun h => h.resolve_right ?_, .inl⟩
  rintro rfl
  exact hnew hr

/-- Tables that agree on `P` still do when the same row of `P` is replaced in both. -/
theorem AgreeOn.both_update (h : AgreeOn P rows rows') (hmem : old ∈ rows) (hold : P old) :
    AgreeOn P (update key (key old) (fun _ => new) rows)
      (update key (key old) (fun _ => new) rows') := by
  have hone : ∀ {xs ys : List Row}, AgreeOn P xs ys → old ∈ ys → ∀ r, P r →
      r ∈ update key (key old) (fun _ => new) xs →
      r ∈ update key (key old) (fun _ => new) ys := by
    intro xs ys hagree hys r hr hmem
    obtain ⟨before, hbefore, heq⟩ := mem_update.mp hmem
    split_ifs at heq with hkey
    · rw [← heq]
      exact mem_update_of_mem hys rfl
    · rw [← heq] at hr ⊢
      exact mem_update_of_ne ((hagree before hr).mpr hbefore) hkey
  exact fun r hr => ⟨hone h.symm hmem r hr, hone h ((h old hold).mpr hmem) r hr⟩

/-- Tables that agree on `P` still do when the rows with a key are removed from both. -/
theorem AgreeOn.both_delete (h : AgreeOn P rows rows') :
    AgreeOn P (delete key k rows) (delete key k rows') := by
  intro r hr
  rw [mem_delete, mem_delete, h r hr]

omit [DecidableEq Key] in
/-- Tables without repeated keys that agree on `P` have the same rows there. -/
theorem AgreeOn.perm [DecidablePred P] (h : AgreeOn P rows rows') (hkeys : (rows.map key).Nodup)
    (hkeys' : (rows'.map key).Nodup) : (rows.filter P).Perm (rows'.filter P) := by
  refine (List.perm_ext_iff_of_nodup (hkeys.of_map.filter _) (hkeys'.of_map.filter _)).mpr ?_
  intro r
  rw [List.mem_filter, List.mem_filter, decide_eq_true_eq]
  exact and_congr_left fun hr => (h r hr).symm

omit [DecidableEq Key] in
/-- A condition that one row of `P` can meet finds the same row in tables that agree on `P`. -/
theorem AgreeOn.find?_eq (h : AgreeOn P rows rows') (hkeys : (rows.map key).Nodup)
    (hkeys' : (rows'.map key).Nodup) {p : Row → Bool} (hP : ∀ r, p r = true → P r)
    (hkey : ∀ r r', p r = true → p r' = true → key r = key r') :
    rows.find? p = rows'.find? p := by
  by_cases hfound : ∃ r ∈ rows, p r = true
  · obtain ⟨r, hr, hp⟩ := hfound
    have hr' : r ∈ rows' := (h r (hP r hp)).mpr hr
    rw [find?_eq_some hkeys hr hp fun r' _ hp' => hkey r' r hp' hp,
      find?_eq_some hkeys' hr' hp fun r' _ hp' => hkey r' r hp' hp]
  · have hnone : rows.find? p = none := by
      simpa using fun r hr hp => hfound ⟨r, hr, hp⟩
    have hnone' : rows'.find? p = none := by
      simpa using fun r hr hp => hfound ⟨r, (h r (hP r hp)).mp hr, hp⟩
    rw [hnone, hnone']

end Agreement

end Tables
