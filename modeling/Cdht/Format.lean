/-
  Cdht/Format.lean
  ================
  **The `printf` conversions, and `sprintf` into a block.**

  A text is the list of its bytes: `decimal` is the conversion `%u` (and `%zu`),
  `signedDecimal` is `%d`, `lowerHex` is `%02x` and `upperHex` is `%02X`.
  `sprintf` writes a text and its terminating NUL at an offset of a block and
  answers the length of the text, so that a rendering that does not fit is an
  `outOfBounds` fault.
-/
import Cdht.Memory
import Mathlib.Algebra.Ring.Nat

namespace Cdht.Format

open Cdht.Memory

def ascii (literal : String) : Bytes := literal.toList.map fun char => UInt8.ofNat char.toNat

def decimal (n : Nat) : Bytes := (Nat.toDigits 10 n).map fun char => UInt8.ofNat char.toNat

def signedDecimal (n : Int) : Bytes :=
  if n < 0 then ascii "-" ++ decimal n.natAbs else decimal n.natAbs

def lowerDigit (digit : Nat) : UInt8 := UInt8.ofNat (Nat.digitChar digit).toNat

def upperDigit (digit : Nat) : UInt8 := UInt8.ofNat (Nat.digitChar digit).toUpper.toNat

def lowerHex (byte : UInt8) : Bytes := [lowerDigit (byte.toNat / 16), lowerDigit (byte.toNat % 16)]

def upperHex (byte : UInt8) : Bytes := [upperDigit (byte.toNat / 16), upperDigit (byte.toNat % 16)]

@[simp] theorem length_lowerHex (byte : UInt8) : (lowerHex byte).length = 2 := rfl

@[simp] theorem length_upperHex (byte : UInt8) : (upperHex byte).length = 2 := rfl

theorem length_decimal_le_iff {n k : Nat} (hk : 0 < k) : (decimal n).length ≤ k ↔ n < 10 ^ k := by
  rw [decimal, List.length_map, Nat.length_toDigits_le_iff (by decide) hk]

theorem length_decimal_pos (n : Nat) : 0 < (decimal n).length := by
  rw [decimal, List.length_map]
  exact Nat.length_toDigits_pos

theorem decimal_digits {n : Nat} {char : UInt8} (h : char ∈ decimal n) : 48 ≤ char ∧ char ≤ 57 := by
  obtain ⟨digit, hdigit, rfl⟩ := List.mem_map.mp h
  have hrange := Nat.isDigit_of_mem_toDigits (by decide) (by decide) hdigit
  have hlow : 48 ≤ digit.toNat := (Char.isDigit_iff_toNat.mp hrange).1
  have hhigh : digit.toNat ≤ 57 := (Char.isDigit_iff_toNat.mp hrange).2
  have hbyte : (UInt8.ofNat digit.toNat).toNat = digit.toNat :=
    UInt8.toNat_ofNat_of_lt' (by show digit.toNat < 256; omega)
  rw [UInt8.le_iff_toNat_le, UInt8.le_iff_toNat_le, hbyte]
  exact ⟨hlow, hhigh⟩

/-- `sprintf(block + offset, ..)` for a format that renders to `text`: the block
    afterwards and the returned length. -/
def sprintf (block : Block) (offset : Nat) (text : Bytes) : Exec (Block × Nat) := do
  let block ← store block offset (text ++ [0])
  return (block, text.length)

/-- A text printed over the end of the previous one, whose terminating NUL it
    replaces. -/
theorem sprintf_over_filled {bytes old text : Bytes} {offset room left : Nat}
    (hoffset : offset = bytes.length) (hold : old.length ≤ text.length + 1)
    (hroom : old.length + room = text.length + 1 + left) :
    sprintf (filled (bytes ++ old) room) offset text =
      .ok (filled (bytes ++ text ++ [0]) left, text.length) := by
  have hlength : (text ++ [0]).length = text.length + 1 := List.length_append
  rw [sprintf, store_over_filled hoffset (hlength ▸ hold) (hlength ▸ hroom), ok_bind,
    List.append_assoc]
  rfl

theorem sprintf_malloc (n : Nat) (text : Bytes) :
    sprintf (malloc n) 0 text =
      if text.length + 1 ≤ n then
        .ok (filled (text ++ [0]) (n - (text.length + 1)), text.length)
      else .error (.outOfBounds n) := by
  by_cases hfits : text.length + 1 ≤ n
  · have hprint : sprintf (filled ([] ++ []) n) 0 text =
        .ok (filled ([] ++ text ++ [0]) (n - (text.length + 1)), text.length) := by
      apply sprintf_over_filled rfl (Nat.zero_le _)
      rw [List.length_nil]
      omega
    rw [if_pos hfits]
    exact hprint
  · have hout : ¬ 0 + ((text ++ [0]).map some).length ≤ (malloc n).length := by
      simpa [malloc] using hfits
    rw [if_neg hfits, sprintf, store, writeAt, if_neg hout]
    simp [malloc]

/-- Digits that are no NUL make a rendering without NUL. -/
theorem nul_not_mem_digits {digit : Nat → UInt8} (hdigit : ∀ n < 16, digit n ≠ 0) (byte : UInt8) :
    (0 : UInt8) ∉ [digit (byte.toNat / 16), digit (byte.toNat % 16)] := by
  have hbyte : byte.toNat < 256 := byte.toNat_lt
  intro hmem
  rcases List.mem_pair.mp hmem with h | h
  · exact hdigit _ (by omega) h.symm
  · exact hdigit _ (by omega) h.symm

theorem nul_not_mem_lowerHex (byte : UInt8) : (0 : UInt8) ∉ lowerHex byte := by
  apply nul_not_mem_digits
  decide

theorem nul_not_mem_upperHex (byte : UInt8) : (0 : UInt8) ∉ upperHex byte := by
  apply nul_not_mem_digits
  decide

end Cdht.Format
