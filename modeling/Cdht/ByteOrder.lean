/-
  Cdht/ByteOrder.lean
  ===================
  **Little-endian words in memory and the network byte order.**

  The machine is little-endian, so `memcpy` between an unsigned word and its
  bytes is `leBytes` / `leValue`.  `ntohs` and `htons` read the two bytes that a
  host word occupies in memory as a big-endian number; they are the same
  function, and undo each other.
-/
import Cdht.Memory
import Mathlib.Data.Nat.Digits.Lemmas

namespace Cdht.ByteOrder

open Cdht.Memory

/-! ### Little-endian words -/

def leBytes : Nat → Nat → Bytes
  | 0, _ => []
  | width + 1, n => UInt8.ofNat (n % 256) :: leBytes width (n / 256)

def leValue (bytes : Bytes) : Nat := Nat.ofDigits 256 (bytes.map UInt8.toNat)

def beValue (bytes : Bytes) : Nat := leValue bytes.reverse

@[simp] theorem leValue_nil : leValue [] = 0 := rfl

@[simp] theorem leValue_cons (byte : UInt8) (bytes : Bytes) :
    leValue (byte :: bytes) = byte.toNat + 256 * leValue bytes := by
  simp only [leValue, List.map_cons, Nat.ofDigits_cons]

@[simp] theorem length_leBytes (width n : Nat) : (leBytes width n).length = width := by
  induction width generalizing n with
  | zero => rfl
  | succ width ih => simp only [leBytes, List.length_cons, ih]

theorem leValue_leBytes (width n : Nat) : leValue (leBytes width n) = n % 256 ^ width := by
  induction width generalizing n with
  | zero => simp only [leBytes, leValue_nil, pow_zero, Nat.mod_one]
  | succ width ih =>
    have hbyte : (UInt8.ofNat (n % 256)).toNat = n % 256 := by
      rw [UInt8.toNat_ofNat', Nat.mod_mod_of_dvd n (by decide)]
    rw [leBytes, leValue_cons, hbyte, ih, pow_succ', Nat.mod_mul]

theorem leBytes_leValue (bytes : Bytes) : leBytes bytes.length (leValue bytes) = bytes := by
  induction bytes with
  | nil => rfl
  | cons byte rest ih =>
    have hbyte : byte.toNat < 256 := byte.toNat_lt
    have hlow : (byte.toNat + 256 * leValue rest) % 256 = byte.toNat := by omega
    have hhigh : (byte.toNat + 256 * leValue rest) / 256 = leValue rest := by omega
    rw [List.length_cons, leBytes, leValue_cons, hlow, hhigh, ih, UInt8.ofNat_toNat]

/-- Only the low `width` bytes of a number are written. -/
theorem leBytes_mod (width n : Nat) : leBytes width (n % 256 ^ width) = leBytes width n := by
  have hbytes := leBytes_leValue (leBytes width n)
  rwa [length_leBytes, leValue_leBytes] at hbytes

theorem leBytes_add (low high n : Nat) :
    leBytes (low + high) n = leBytes low n ++ leBytes high (n / 256 ^ low) := by
  induction low generalizing n with
  | zero => rw [Nat.zero_add, pow_zero, Nat.div_one, leBytes, List.nil_append]
  | succ low ih =>
    rw [Nat.succ_add, leBytes, leBytes, ih, List.cons_append, Nat.div_div_eq_div_mul, ← pow_succ']

theorem leValue_lt (bytes : Bytes) : leValue bytes < 256 ^ bytes.length := by
  have hlt := Nat.ofDigits_lt_base_pow_length (b := 256) (l := bytes.map UInt8.toNat)
    (by decide) (by
      intro digit hdigit
      obtain ⟨byte, _, rfl⟩ := List.mem_map.mp hdigit
      exact byte.toNat_lt)
  rwa [List.length_map] at hlt

@[simp] theorem beValue_nil : beValue [] = 0 := rfl

@[simp] theorem beValue_concat (bytes : Bytes) (byte : UInt8) :
    beValue (bytes ++ [byte]) = 256 * beValue bytes + byte.toNat := by
  rw [beValue, List.reverse_append, List.reverse_singleton, List.singleton_append, leValue_cons,
    Nat.add_comm]
  rfl

/-! ### 16-bit words and the network byte order -/

def loadU16 (bytes : CharArray 2) : UInt16 := UInt16.ofNat (leValue bytes.val)

def storeU16 (x : UInt16) : Bytes := leBytes 2 x.toNat

/-- `ntohs`: the value of the two stored bytes of `raw` in network order. -/
def ntohs (raw : UInt16) : UInt16 := UInt16.ofNat (beValue (storeU16 raw))

/-- `htons`: the host word whose two stored bytes are `x` in network order. -/
def htons (x : UInt16) : UInt16 := UInt16.ofNat (beValue (storeU16 x))

@[simp] theorem length_storeU16 (x : UInt16) : (storeU16 x).length = 2 := length_leBytes 2 _

theorem storeU16_ofNat_leValue {bytes : Bytes} (h : bytes.length = 2) :
    storeU16 (UInt16.ofNat (leValue bytes)) = bytes := by
  have hlt : leValue bytes < 65536 := by
    have hlt := leValue_lt bytes
    rwa [h] at hlt
  rw [storeU16, UInt16.toNat_ofNat_of_lt' hlt, ← h, leBytes_leValue]

theorem ntohs_loadU16 (bytes : CharArray 2) :
    ntohs (loadU16 bytes) = UInt16.ofNat (beValue bytes.val) := by
  rw [ntohs, loadU16, storeU16_ofNat_leValue bytes.property]

theorem storeU16_htons (x : UInt16) : storeU16 (htons x) = (storeU16 x).reverse := by
  rw [htons, beValue, storeU16_ofNat_leValue (by simp)]

/-- **Decoding undoes encoding** for a network-order 16-bit field. -/
theorem ofNat_beValue_storeU16_htons (x : UInt16) :
    UInt16.ofNat (beValue (storeU16 (htons x))) = x := by
  have hlt : x.toNat < 256 ^ 2 := x.toNat_lt
  rw [storeU16_htons, beValue, List.reverse_reverse, storeU16, leValue_leBytes,
    Nat.mod_eq_of_lt hlt, UInt16.ofNat_toNat]

/-- **Encoding undoes decoding** for a network-order 16-bit field. -/
theorem storeU16_htons_ofNat_beValue {bytes : Bytes} (h : bytes.length = 2) :
    storeU16 (htons (UInt16.ofNat (beValue bytes))) = bytes := by
  rw [storeU16_htons, beValue, storeU16_ofNat_leValue (by rw [List.length_reverse, h]),
    List.reverse_reverse]

theorem toNat_ofNat_beValue {bytes : Bytes} (h : bytes.length = 2) :
    (UInt16.ofNat (beValue bytes)).toNat = beValue bytes := by
  have hlt : beValue bytes < 65536 := by
    have hlt := leValue_lt bytes.reverse
    rwa [List.length_reverse, h] at hlt
  exact UInt16.toNat_ofNat_of_lt' hlt

end Cdht.ByteOrder
