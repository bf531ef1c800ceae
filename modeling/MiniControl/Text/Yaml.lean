import Mathlib.Algebra.Group.Int.Defs
import Mathlib.Data.Int.Notation
import Mathlib.Data.List.Basic
import Mathlib.Data.Nat.Notation
import Mathlib.Tactic.Common

/-!
# Flat YAML mappings

A flat mapping has one key and one scalar on each line. The scalars are single-quoted
strings, in which a quote is written twice, decimal integers of 64 bits and booleans.
The parser accepts such documents only, in the one spelling that the writer uses, so
that every YAML parser agrees with it on what it accepts.
-/

namespace Text

section Quotes

variable {α : Type*} [DecidableEq α]

/-- Every quote is written twice. -/
def double (q : α) : List α → List α
  | [] => []
  | c :: rest => if c = q then q :: q :: double q rest else c :: double q rest

/-- Two quotes in a row become one, from left to right. -/
def undouble (q : α) : List α → List α
  | [] => []
  | [c] => [c]
  | c :: d :: rest => if c = q ∧ d = q then q :: undouble q rest else c :: undouble q (d :: rest)

/-- The text of a quoted scalar after its opening quote, and what stands after its
closing quote. -/
def scanQuoted (q : α) : List α → Option (List α × List α)
  | [] => none
  | [c] => if c = q then some ([], []) else none
  | c :: d :: rest =>
    if c ≠ q then (scanQuoted q (d :: rest)).map fun (text, after) => (c :: text, after)
    else if d = q then (scanQuoted q rest).map fun (text, after) => (q :: text, after)
    else some ([], d :: rest)

/-- Any other character stays. -/
theorem undouble_cons_of_ne {q c : α} (hc : c ≠ q) (text : List α) :
    undouble q (c :: text) = c :: undouble q text := by
  cases text with
  | nil => rfl
  | cons d rest => rw [undouble, if_neg fun h => hc h.1]

/-- The quotes that were written twice are read back. -/
theorem undouble_double (q : α) (text : List α) : undouble q (double q text) = text := by
  induction text with
  | nil => rfl
  | cons c rest ih =>
    rw [double]
    split
    next hc => rw [undouble, if_pos ⟨rfl, rfl⟩, ih, hc]
    next hc => rw [undouble_cons_of_ne hc, ih]

/-- Writing quotes twice adds no other character. -/
theorem mem_double {q c : α} {text : List α} : c ∈ double q text ↔ c ∈ text := by
  induction text with
  | nil => rfl
  | cons d rest ih =>
    rw [double]
    split
    next hd => simp [ih, hd]
    · simp [ih]

/-- Any other character is part of the scalar. -/
theorem scanQuoted_cons_of_ne {q c : α} (hc : c ≠ q) (text : List α) :
    scanQuoted q (c :: text) =
      (scanQuoted q text).map fun (scalar, after) => (c :: scalar, after) := by
  cases text with
  | nil => exact if_neg hc
  | cons d rest => rw [scanQuoted, if_pos hc]

/-- A scalar ends at the first quote that was not written twice. -/
theorem scanQuoted_double (q : α) (text : List α) :
    scanQuoted q (double q text ++ [q]) = some (text, []) := by
  induction text with
  | nil => rw [double, List.nil_append, scanQuoted, if_pos rfl]
  | cons c rest ih =>
    rw [double]
    split
    next hc =>
      rw [List.cons_append, List.cons_append, scanQuoted, if_neg (not_not.mpr rfl), if_pos rfl, ih,
        hc]
      rfl
    next hc =>
      rw [List.cons_append, scanQuoted_cons_of_ne hc, ih]
      rfl

end Quotes

section Numbers

/-- An integer in decimal notation. -/
def decimal : ℤ → List Char
  | .ofNat n => Nat.toDigits 10 n
  | .negSucc n => '-' :: Nat.toDigits 10 (n + 1)

/-- The number of decimal digits. -/
def ofDecimal : List Char → ℤ
  | '-' :: digits => -(Nat.ofDigitChars 10 digits 0)
  | digits => Nat.ofDigitChars 10 digits 0

/-- The digits of a number are digits. -/
theorem isDigit_of_mem_toDigits_ten {n : ℕ} {c : Char} (hc : c ∈ Nat.toDigits 10 n) :
    c.isDigit = true :=
  Nat.isDigit_of_mem_toDigits (by decide) (by decide) hc

/-- Decimal notation has digits and a sign. -/
theorem isDigit_of_mem_decimal {n : ℤ} {c : Char} (hc : c ∈ decimal n) :
    c.isDigit = true ∨ c = '-' := by
  cases n with
  | ofNat m => exact .inl (isDigit_of_mem_toDigits_ten hc)
  | negSucc m =>
    rcases List.mem_cons.mp hc with rfl | hdigit
    · exact .inr rfl
    · exact .inl (isDigit_of_mem_toDigits_ten hdigit)

/-- Decimal notation is read back. -/
theorem ofDecimal_decimal (n : ℤ) : ofDecimal (decimal n) = n := by
  cases n with
  | ofNat m =>
    -- a number that is not negative does not start with a sign
    have hsign : ∀ digits, Nat.toDigits 10 m ≠ '-' :: digits := by
      intro digits hdigits
      have hc : '-' ∈ Nat.toDigits 10 m := by rw [hdigits]; exact List.mem_cons_self
      exact absurd (isDigit_of_mem_toDigits_ten hc) (by decide)
    rw [decimal, ofDecimal.eq_2 _ hsign, Nat.ofDigitChars_ten_toDigits]
    rfl
  | negSucc m =>
    rw [decimal, ofDecimal, Nat.ofDigitChars_ten_toDigits]
    rfl

end Numbers

section Lines

/-- The lines of a text; the last one may lack its line feed. -/
def lines (text : List Char) : List (List Char) :=
  let parts := text.splitOn '\n'
  if parts.getLast? = some [] then parts.dropLast else parts

/-- Lines with their line feeds. -/
def unlines (ls : List (List Char)) : List Char := ls.flatMap (· ++ ['\n'])

variable {ls : List (List Char)}

/-- Lines with their line feeds are read back. -/
theorem lines_unlines (h : ∀ l ∈ ls, '\n' ∉ l) : lines (unlines ls) = ls := by
  have hparts : (unlines ls).splitOn '\n' = ls ++ [[]] := by
    induction ls with
    | nil => rfl
    | cons l ls ih =>
      obtain ⟨hl, hls⟩ := List.forall_mem_cons.mp h
      rw [unlines, List.flatMap_cons, List.append_assoc, List.singleton_append,
        List.splitOn_append_cons_self_of_not_mem hl, ← unlines, ih hls, List.cons_append]
  simp [lines, hparts]

/-- Lines without the last line feed are read back unless the last one is empty. -/
theorem lines_intercalate (h : ∀ l ∈ ls, '\n' ∉ l ∧ l ≠ []) (hne : ls ≠ []) :
    lines (['\n'].intercalate ls) = ls := by
  rw [lines, List.splitOn_intercalate _ (fun l hl => (h l hl).1) hne]
  exact if_neg fun hlast => (h _ (List.mem_of_getLast? hlast)).2 rfl

end Lines

section Mappings

/-- The scalars of a flat mapping. -/
inductive Scalar
  | string (text : List Char)
  | int (n : ℤ)
  | bool (b : Bool)
  deriving DecidableEq

/-- A printable character that ends no line, in any version of YAML, and is no mark of
the byte order. -/
def isPrintable (c : Char) : Bool :=
  c.toNat == 0x9 || (0x20 ≤ c.toNat && c.toNat ≤ 0x7E) || 0x10000 ≤ c.toNat ||
    (0xA0 ≤ c.toNat && c.toNat ≤ 0xFFFD && c.toNat != 0x2028 && c.toNat != 0x2029 &&
      c.toNat != 0xFEFF)

/-- The scalars that have a spelling on one line. -/
def Scalar.IsFlat : Scalar → Prop
  | .string text => ∀ c ∈ text, isPrintable c = true
  | .int n => -2 ^ 63 ≤ n ∧ n < 2 ^ 63
  | .bool _ => True

/-- The spelling of a scalar. -/
def Scalar.write : Scalar → List Char
  | .string text => '\'' :: (double '\'' text ++ ['\''])
  | .int n => decimal n
  | .bool b => if b then "true".toList else "false".toList

/-- The scalar of a spelling. -/
def parseScalar (text : List Char) : Option Scalar :=
  match text with
  | '\'' :: rest =>
    match scanQuoted '\'' rest with
    | some (text, []) => if text.all isPrintable then some (.string text) else none
    | _ => none
  | _ =>
    if text = "true".toList then some (.bool true)
    else if text = "false".toList then some (.bool false)
    else
      let n := ofDecimal text
      if decimal n = text ∧ -2 ^ 63 ≤ n ∧ n < 2 ^ 63 then some (.int n) else none

/-- The characters of a key. -/
def isKeyChar (c : Char) : Bool := c.isLower || c == '_'

/-- A name that is no scalar of another type. -/
def isKey (key : List Char) : Bool :=
  key.all isKeyChar && key.head?.any Char.isLower && key.contains '_'

/-- One line of a mapping. -/
def writeField (field : List Char × Scalar) : List Char :=
  field.1 ++ ':' :: ' ' :: field.2.write

/-- The key and the scalar of a line. -/
def parseField (line : List Char) : Option (List Char × Scalar) :=
  let key := line.takeWhile isKeyChar
  match line.dropWhile isKeyChar with
  | ':' :: ' ' :: text => if isKey key then (parseScalar text).map (key, ·) else none
  | _ => none

/-- The keys and scalars of the lines. -/
def parseFields : List (List Char) → Option (List (List Char × Scalar))
  | [] => some []
  | line :: ls =>
    match parseField line, parseFields ls with
    | some field, some fields => some (field :: fields)
    | _, _ => none

/-- The mapping of a document. -/
def parseMapping (text : List Char) : Option (List (List Char × Scalar)) :=
  match parseFields (lines text) with
  | some fields => if fields ≠ [] ∧ (fields.map Prod.fst).Nodup then some fields else none
  | none => none

/-- A mapping with a line for each of its keys. -/
structure IsMapping (fields : List (List Char × Scalar)) : Prop where
  keys : ∀ field ∈ fields, isKey field.1 = true
  flat : ∀ field ∈ fields, field.2.IsFlat
  nodup : (fields.map Prod.fst).Nodup
  nonempty : fields ≠ []

/-- The spelling of a scalar is read back. -/
theorem parseScalar_write {scalar : Scalar} (h : scalar.IsFlat) :
    parseScalar scalar.write = some scalar := by
  cases scalar with
  | string text =>
    rw [Scalar.write, parseScalar, scanQuoted_double]
    exact if_pos (List.all_eq_true.mpr h)
  | int n =>
    have hnot {text : List Char} {c : Char} (hc : c ∈ text) (hdigit : c.isDigit = false)
        (hsign : c ≠ '-') : decimal n ≠ text := by
      rintro rfl
      rcases isDigit_of_mem_decimal hc with h | h
      · exact Bool.noConfusion (hdigit.symm.trans h)
      · exact hsign h
    rw [Scalar.write,
      parseScalar.eq_2 _ fun rest => hnot List.mem_cons_self (by decide) (by decide),
      if_neg (hnot (c := 't') (by decide) (by decide) (by decide)),
      if_neg (hnot (c := 'f') (by decide) (by decide) (by decide))]
    simp only [ofDecimal_decimal, true_and]
    exact if_pos h
  | bool b => cases b <;> rfl

/-- A spelling has no line feed. -/
theorem newline_not_mem_write {scalar : Scalar} (h : scalar.IsFlat) : '\n' ∉ scalar.write := by
  cases scalar with
  | string text =>
    have htext : '\n' ∉ text := fun hmem => absurd (h _ hmem) (by decide)
    simp [Scalar.write, mem_double, htext]
  | int n =>
    intro hmem
    rcases isDigit_of_mem_decimal hmem with h | h
    · exact absurd h (by decide)
    · exact absurd h (by decide)
  | bool b => cases b <;> decide

/-- The characters of a key are those of keys. -/
theorem isKeyChar_of_isKey {key : List Char} (h : isKey key = true) {c : Char} (hc : c ∈ key) :
    isKeyChar c = true := by
  simp only [isKey, Bool.and_eq_true, List.all_eq_true] at h
  exact h.1.1 c hc

/-- A line is read back. -/
theorem parseField_writeField {field : List Char × Scalar} (hkey : isKey field.1 = true)
    (hflat : field.2.IsFlat) : parseField (writeField field) = some field := by
  have hchars : ∀ c ∈ field.1, isKeyChar c = true := fun c => isKeyChar_of_isKey hkey
  have htake : (writeField field).takeWhile isKeyChar = field.1 := by
    rw [writeField, List.takeWhile_append_of_pos hchars]
    exact List.append_nil _
  have hdrop : (writeField field).dropWhile isKeyChar = ':' :: ' ' :: field.2.write := by
    rw [writeField, List.dropWhile_append_of_pos hchars]
    rfl
  simp only [parseField, htake, hdrop, hkey, if_true, parseScalar_write hflat, Option.map_some]

/-- The lines of a mapping are read back. -/
theorem parseFields_map {fields : List (List Char × Scalar)}
    (hkeys : ∀ field ∈ fields, isKey field.1 = true)
    (hflat : ∀ field ∈ fields, field.2.IsFlat) :
    parseFields (fields.map writeField) = some fields := by
  induction fields with
  | nil => rfl
  | cons field fields ih =>
    rw [List.forall_mem_cons] at hkeys hflat
    simp only [List.map_cons, parseFields, parseField_writeField hkeys.1 hflat.1,
      ih hkeys.2 hflat.2]

namespace IsMapping

variable {fields : List (List Char × Scalar)}

/-- The lines of a mapping are lines. -/
theorem newline_not_mem (h : IsMapping fields) : ∀ line ∈ fields.map writeField, '\n' ∉ line := by
  intro line hline
  obtain ⟨field, hfield, rfl⟩ := List.mem_map.mp hline
  have hkey : '\n' ∉ field.1 := fun hmem =>
    absurd (isKeyChar_of_isKey (h.keys field hfield) hmem) (by decide)
  simp [writeField, hkey, newline_not_mem_write (h.flat field hfield)]

/-- The lines of a mapping, with the last line feed. -/
theorem lines_unlines (h : IsMapping fields) :
    lines (unlines (fields.map writeField)) = fields.map writeField :=
  Text.lines_unlines h.newline_not_mem

/-- A document with the lines of a mapping is read as this mapping. -/
theorem parseMapping_of_lines (h : IsMapping fields) {text : List Char}
    (hlines : lines text = fields.map writeField) : parseMapping text = some fields := by
  simp only [parseMapping, hlines, parseFields_map h.keys h.flat]
  exact if_pos ⟨h.nonempty, h.nodup⟩

end IsMapping

end Mappings

end Text
