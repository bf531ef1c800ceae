import Mathlib.Data.List.Basic
import Mathlib.Data.Nat.Notation
import Mathlib.Tactic.Common

/-!
# Bytes as hexadecimal digits

A byte is written as two digits in lower case, the high half first.
-/

namespace Text

/-- The two digits of a byte. -/
def byteDigits (byte : UInt8) : List Char :=
  [Nat.digitChar (byte.toNat / 16), Nat.digitChar (byte.toNat % 16)]

/-- The digits of a text of bytes. -/
def encodeHex (bytes : List UInt8) : List Char := bytes.flatMap byteDigits

/-- The digits in lower case. -/
def isHexDigit (c : Char) : Bool := "0123456789abcdef".toList.contains c

/-- The digit of a number below sixteen is a digit. -/
theorem isHexDigit_digitChar {n : ℕ} (hn : n < 16) : isHexDigit (Nat.digitChar n) = true := by
  have hall : ∀ n < 16, isHexDigit (Nat.digitChar n) = true := by decide
  exact hall n hn

/-- All characters of an encoded text are digits. -/
theorem isHexDigit_of_mem_encodeHex {bytes : List UInt8} {c : Char} (hc : c ∈ encodeHex bytes) :
    isHexDigit c = true := by
  obtain ⟨byte, _, hdigit⟩ := List.mem_flatMap.mp hc
  have hhigh : byte.toNat / 16 < 16 := by
    have := byte.toNat_lt
    omega
  have hlow : byte.toNat % 16 < 16 := Nat.mod_lt _ (by decide)
  rcases List.mem_cons.mp hdigit with rfl | hsecond
  · exact isHexDigit_digitChar hhigh
  · rw [List.mem_singleton.mp hsecond]
    exact isHexDigit_digitChar hlow

/-- Different numbers below sixteen have different digits. -/
theorem digitChar_injOn {a b : ℕ} (ha : a < 16) (hb : b < 16)
    (h : Nat.digitChar a = Nat.digitChar b) : a = b := by
  have hall : ∀ a < 16, ∀ b < 16, Nat.digitChar a = Nat.digitChar b → a = b := by decide
  exact hall a ha b hb h

/-- A byte is determined by its digits. -/
theorem byteDigits_injective {a b : UInt8} (h : byteDigits a = byteDigits b) : a = b := by
  have ha := a.toNat_lt
  have hb := b.toNat_lt
  simp only [byteDigits, List.cons.injEq, and_true] at h
  have hhigh := digitChar_injOn (by omega) (by omega) h.1
  have hlow := digitChar_injOn (Nat.mod_lt _ (by decide)) (Nat.mod_lt _ (by decide)) h.2
  apply UInt8.toNat_inj.mp
  omega

/-- Bytes are determined by their digits. -/
theorem encodeHex_injective : Function.Injective encodeHex := by
  intro a b h
  induction a generalizing b with
  | nil =>
    cases b with
    | nil => rfl
    | cons byte rest => cases h
  | cons byte rest ih =>
    cases b with
    | nil => cases h
    | cons byte' rest' =>
      -- every byte has two digits, so the digits of the first bytes agree
      have happend : byteDigits byte ++ encodeHex rest = byteDigits byte' ++ encodeHex rest' := h
      obtain ⟨hfirst, hrest⟩ := List.append_inj happend rfl
      rw [byteDigits_injective hfirst, ih hrest]

end Text
