/-
  Cdht/Sha1Standard.lean
  ======================
  **SHA-1 as the standard describes it.**

  This is the function of FIPS PUB 180-1, which `helpers/sha1.c` names as the source
  of its test vectors, written down from the standard's own description and not from
  the code: a message is padded to whole blocks of 64 bytes, each block is spread to
  a schedule of 80 words, and 80 rounds of one shape update five registers.  The code
  does the same in place, with sixteen words and unrolled rounds; `Sha1Stream.lean`
  proves that it computes `sha1`.
-/
import Cdht.BlockHash
import Cdht.ByteOrder
import Mathlib.Algebra.Ring.Nat
import Mathlib.Data.List.GetD

namespace Cdht.Sha1Standard

open Cdht.Memory Cdht.ByteOrder Cdht.BlockHash

/-- The five words of a chaining value, or the five registers of the rounds. -/
structure Registers where
  a : UInt32
  b : UInt32
  c : UInt32
  d : UInt32
  e : UInt32
deriving DecidableEq

def rotl (word : UInt32) (n : Nat) : UInt32 := ⟨word.toBitVec.rotateLeft n⟩

/-! ### One round -/

def mix (t : Nat) (b c d : UInt32) : UInt32 :=
  if t < 20 then (b &&& c) ||| (~~~b &&& d)
  else if t < 40 then b ^^^ c ^^^ d
  else if t < 60 then (b &&& c) ||| (b &&& d) ||| (c &&& d)
  else b ^^^ c ^^^ d

def constant (t : Nat) : UInt32 :=
  if t < 20 then 0x5A827999
  else if t < 40 then 0x6ED9EBA1
  else if t < 60 then 0x8F1BBCDC
  else 0xCA62C1D6

def round (t : Nat) (word : UInt32) (regs : Registers) : Registers where
  a := rotl regs.a 5 + mix t regs.b regs.c regs.d + regs.e + word + constant t
  b := regs.a
  c := rotl regs.b 30
  d := regs.c
  e := regs.d

/-! ### The message schedule -/

/-- The `t`-th word of a block, in network order. -/
def blockWord (block : Bytes) (t : Nat) : UInt32 := UInt32.ofNat (beValue (slice block (4 * t) 4))

/-- The first `n` words of the schedule of a block. -/
def schedule (block : Bytes) : Nat → List UInt32
  | 0 => []
  | t + 1 =>
      let words := schedule block t
      words ++ [if t < 16 then blockWord block t else
        rotl (words.getD (t - 3) 0 ^^^ words.getD (t - 8) 0 ^^^ words.getD (t - 14) 0 ^^^
          words.getD (t - 16) 0) 1]

@[simp] theorem length_schedule (block : Bytes) (n : Nat) : (schedule block n).length = n := by
  induction n with
  | zero => rfl
  | succ n ih => simp only [schedule, List.length_append, List.length_singleton, ih]

/-- The `t`-th word of the schedule. -/
def scheduleWord (block : Bytes) (t : Nat) : UInt32 := (schedule block (t + 1)).getD t 0

theorem getD_schedule (block : Bytes) {t n : Nat} (h : t < n) :
    (schedule block n).getD t 0 = scheduleWord block t := by
  induction n with
  | zero => omega
  | succ n ih =>
    rcases Nat.lt_succ_iff_lt_or_eq.mp h with hlt | rfl
    · rw [schedule, List.getD_append _ _ _ _ (by rw [length_schedule]; exact hlt)]
      exact ih hlt
    · rfl

theorem scheduleWord_eq (block : Bytes) (t : Nat) :
    scheduleWord block t = if t < 16 then blockWord block t else
      rotl ((schedule block t).getD (t - 3) 0 ^^^ (schedule block t).getD (t - 8) 0 ^^^
        (schedule block t).getD (t - 14) 0 ^^^ (schedule block t).getD (t - 16) 0) 1 := by
  rw [scheduleWord, schedule, List.getD_append_right _ _ _ _ (by rw [length_schedule]),
    length_schedule, Nat.sub_self, List.getD_cons_zero]

theorem scheduleWord_of_lt (block : Bytes) {t : Nat} (h : t < 16) :
    scheduleWord block t = blockWord block t := by
  rw [scheduleWord_eq, if_pos h]

theorem scheduleWord_of_le (block : Bytes) {t : Nat} (h : 16 ≤ t) :
    scheduleWord block t = rotl (scheduleWord block (t - 3) ^^^ scheduleWord block (t - 8) ^^^
      scheduleWord block (t - 14) ^^^ scheduleWord block (t - 16)) 1 := by
  rw [scheduleWord_eq, if_neg (by omega), getD_schedule block (by omega),
    getD_schedule block (by omega), getD_schedule block (by omega), getD_schedule block (by omega)]

/-! ### Compression, padding and the digest -/

/-- The first `n` rounds with the words of a schedule. -/
def rounds (words : List UInt32) : Nat → Registers → Registers
  | 0, regs => regs
  | t + 1, regs => round t (words.getD t 0) (rounds words t regs)

def compress (chaining : Registers) (block : Bytes) : Registers :=
  let regs := rounds (schedule block 80) 80 chaining
  ⟨chaining.a + regs.a, chaining.b + regs.b, chaining.c + regs.c, chaining.d + regs.d,
    chaining.e + regs.e⟩

def initial : Registers := ⟨0x67452301, 0xEFCDAB89, 0x98BADCFE, 0x10325476, 0xC3D2E1F0⟩

def beBytes (width n : Nat) : Bytes := (leBytes width n).reverse

/-- The number of zero bytes between the marker and the length of a message. -/
def zeroCount (length : Nat) : Nat := (119 - length % 64) % 64

/-- What is appended to a message of `length` bytes. -/
def padding (length : Nat) : Bytes :=
  [0x80] ++ List.replicate (zeroCount length) 0 ++ beBytes 8 (8 * length)

def digestBytes (regs : Registers) : Bytes :=
  beBytes 4 regs.a.toNat ++ beBytes 4 regs.b.toNat ++ beBytes 4 regs.c.toNat ++
    beBytes 4 regs.d.toNat ++ beBytes 4 regs.e.toNat

@[simp] theorem length_beBytes (width n : Nat) : (beBytes width n).length = width := by
  rw [beBytes, List.length_reverse, length_leBytes]

theorem length_digestBytes (regs : Registers) : (digestBytes regs).length = 20 := by
  simp only [digestBytes, List.length_append, length_beBytes]

def digest (regs : Registers) : CharArray 20 := ⟨digestBytes regs, length_digestBytes regs⟩

/-- The SHA-1 digest of a message. -/
def sha1 (message : Bytes) : CharArray 20 :=
  digest (chain 64 compress initial (message ++ padding message.length))

end Cdht.Sha1Standard
