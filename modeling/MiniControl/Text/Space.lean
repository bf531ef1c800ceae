import Mathlib.Data.List.DropRight
import Mathlib.Tactic.Common

/-!
# White space and letter case in texts

White space is what Unicode calls so. Texts are trimmed of it and split at it
or at the ends of lines. The letters of ASCII have a lower case.
-/

namespace Text

/-- The characters with the Unicode property of white space. -/
def isSpace (c : Char) : Bool :=
  (9 ≤ c.toNat && c.toNat ≤ 13) || c.toNat == 32 || c.toNat == 0x85 || c.toNat == 0xA0 ||
    c.toNat == 0x1680 || (0x2000 ≤ c.toNat && c.toNat ≤ 0x200A) || c.toNat == 0x2028 ||
    c.toNat == 0x2029 || c.toNat == 0x202F || c.toNat == 0x205F || c.toNat == 0x3000

/-- The characters that end a line. -/
def isNewline (c : Char) : Bool :=
  (10 ≤ c.toNat && c.toNat ≤ 13) || c.toNat == 0x85 || c.toNat == 0x2028 || c.toNat == 0x2029

/-- `strings.TrimSpace`: the text without white space at its two ends. -/
def trimSpace (text : String) : String :=
  String.ofList ((text.toList.dropWhile isSpace).reverse.dropWhile isSpace).reverse

/-- A text without white space at its two ends stays as it is. -/
theorem trimSpace_trimSpace (text : String) : trimSpace (trimSpace text) = trimSpace text := by
  have htrim : ∀ text, trimSpace text =
      String.ofList (List.rdropWhile isSpace (text.toList.dropWhile isSpace)) := fun _ => rfl
  have hleft : (List.rdropWhile isSpace (text.toList.dropWhile isSpace)).dropWhile isSpace =
      List.rdropWhile isSpace (text.toList.dropWhile isSpace) := by
    have hhead := List.head?_dropWhile_not isSpace text.toList
    have hpre := List.rdropWhile_prefix isSpace (text.toList.dropWhile isSpace)
    cases hrest : text.toList.dropWhile isSpace with
    | nil => rfl
    | cons c rest =>
      -- what is left after the last space is nothing, or starts with the same character
      rw [hrest] at hpre hhead
      rcases List.prefix_cons_iff.mp hpre with hnil | ⟨tail, htail, _⟩
      · rw [hnil, List.dropWhile_nil]
      · rw [htail, List.dropWhile_cons_of_neg (by simpa using hhead)]
  rw [htrim, htrim, String.toList_ofList, hleft, List.rdropWhile_idempotent]

/-- Trimming takes away the white space around a text that has none. -/
theorem trimSpace_surrounded {before core after : List Char} (hbefore : ∀ c ∈ before, isSpace c)
    (hcore : ∀ c ∈ core, isSpace c = false) (hafter : ∀ c ∈ after, isSpace c) :
    trimSpace (String.ofList (before ++ core ++ after)) = String.ofList core := by
  -- on either side the spaces are dropped and the first other character stops it
  have hdrop : ∀ spaces rest : List Char, (∀ c ∈ spaces, isSpace c) →
      (∀ c ∈ rest.head?, isSpace c = false) → (spaces ++ rest).dropWhile isSpace = rest := by
    intro spaces rest hspaces hrest
    rw [List.dropWhile_append_of_pos hspaces]
    cases rest with
    | nil => rfl
    | cons c rest => exact List.dropWhile_cons_of_neg (by simp [hrest c rfl])
  rw [trimSpace, String.toList_ofList]
  congr 1
  cases core with
  | nil =>
    have hall : (before ++ [] ++ after).dropWhile isSpace = [] := by
      rw [List.dropWhile_eq_nil_iff]
      simpa [or_imp, forall_and] using And.intro hbefore hafter
    rw [hall]
    rfl
  | cons c core =>
    rw [List.append_assoc, hdrop before _ hbefore (by simpa using hcore c List.mem_cons_self),
      List.reverse_append, hdrop _ _ (by simpa using hafter), List.reverse_reverse]
    intro d hd
    exact hcore d (List.mem_reverse.mp (List.mem_of_mem_head? hd))

/-- A text without white space stays as it is. -/
theorem trimSpace_of_forall {text : String} (h : ∀ c ∈ text.toList, isSpace c = false) :
    trimSpace text = text := by
  have htrim := trimSpace_surrounded (List.forall_mem_nil _) h (List.forall_mem_nil _)
  simpa using htrim

/-- The maximal parts of a text without a separator, as `split` returns them. -/
def fields (isSeparator : Char → Bool) (text : String) : List String :=
  ((text.toList.splitOnP isSeparator).filter (· ≠ [])).map String.ofList

/-- The lower case of a letter of ASCII stands 32 places behind it. -/
theorem toLower_cases (c : Char) :
    c.toLower = c ∧ (c.toNat < 65 ∨ 90 < c.toNat) ∨
      (c.toLower.toNat = c.toNat + 32 ∧ 65 ≤ c.toNat ∧ c.toNat ≤ 90) := by
  have hA : 'A'.val.toNat = 65 := rfl
  have hZ : 'Z'.val.toNat = 90 := rfl
  unfold Char.toLower
  split
  next hupper =>
    obtain ⟨hlow, hhigh⟩ := hupper
    rw [ge_iff_le, UInt32.le_iff_toNat_le] at hlow
    rw [UInt32.le_iff_toNat_le] at hhigh
    rw [hA] at hlow
    rw [hZ] at hhigh
    refine .inr ⟨?_, hlow, hhigh⟩
    change (c.val + 32).toNat = c.val.toNat + 32
    rw [UInt32.toNat_add, show (32 : UInt32).toNat = 32 from rfl]
    omega
  next hother =>
    refine .inl ⟨rfl, ?_⟩
    simp only [ge_iff_le, UInt32.le_iff_toNat_le, Char.toNat_val] at hother
    rw [show 'A'.toNat = 65 from rfl, show 'Z'.toNat = 90 from rfl] at hother
    omega

end Text
