/-
  Cdht/BucketIndex.lean
  =====================
  **What the bucket index of a digest is.**

  `sha1_mod_bucket` runs Horner's rule over the twenty digest bytes and reduces at
  every step.  Its bytes are signed, so a byte of 0x80 or more enters 256 too low,
  or, while the residue is 0, as a number just below 2^64.  `signSurplus` adds up
  what this makes of the whole digest, and the index is the digest modulo the
  number of buckets exactly when that sum is divisible by it
  (`sha1ModBucket_eq_mod_iff`).

  Where the number of buckets divides 2^64, the wrapping does no harm: the index is
  the value of the signed bytes.  Reading bytes as signed shifts each by 128, up to
  a permutation of the bytes, so the digests are spread evenly over the buckets
  (`buckets_balanced`).
-/
import Cdht.ByteOrder
import Cdht.StoreRefinement
import Mathlib.Algebra.BigOperators.Ring.Finset
import Mathlib.Data.Int.CardIntervalMod
import Mathlib.Data.List.DropRight
import Mathlib.Data.List.GetD
import Mathlib.SetTheory.Cardinal.Finite

namespace Cdht.BucketIndex

open Cdht.Memory Cdht.ByteOrder Cdht.Store Cdht.StoreRefinement
open scoped Count

/-! ### Signed bytes -/

def signedByte (char : UInt8) : Int := char.toInt8.toInt

theorem signedByte_eq (char : UInt8) :
    signedByte char = if char.toNat < 128 then (char.toNat : Int) else char.toNat - 256 := by
  have hbits : ∀ bits : BitVec 8, signedByte ⟨bits⟩ =
      if bits.toNat < 128 then (bits.toNat : Int) else bits.toNat - 256 := by
    decide
  exact hbits char.toBitVec

theorem toNat_charToSize (char : UInt8) :
    (charToSize char).toNat =
      if char.toNat < 128 then char.toNat else 2 ^ 64 - 256 + char.toNat := by
  have hbits : ∀ bits : BitVec 8, (charToSize ⟨bits⟩).toNat =
      if bits.toNat < 128 then bits.toNat else 2 ^ 64 - 256 + bits.toNat := by
    decide
  exact hbits char.toBitVec

theorem charToSize_modEq (char : UInt8) :
    ((charToSize char).toNat : Int) ≡ signedByte char [ZMOD 2 ^ 64] := by
  rw [toNat_charToSize, signedByte_eq]
  split
  · rfl
  · rw [Int.modEq_iff_dvd]
    refine ⟨-1, ?_⟩
    push_cast
    omega

/-! ### The loop -/

/-- The loop of `sha1_mod_bucket` over any byte string. -/
def bucketLoop (bucketCount : UInt64) (bytes : Bytes) : UInt64 :=
  bytes.foldl (fun result char => (result * 256 + charToSize char) % bucketCount) 0

theorem sha1ModBucket_eq (hash : Digest) (bucketCount : UInt64) :
    sha1ModBucket hash bucketCount = bucketLoop bucketCount hash.val := rfl

theorem bucketLoop_concat (bucketCount : UInt64) (bytes : Bytes) (char : UInt8) :
    (bucketLoop bucketCount (bytes ++ [char])).toNat =
      (256 * (bucketLoop bucketCount bytes).toNat + (charToSize char).toNat) % 2 ^ 64 %
        bucketCount.toNat := by
  rw [bucketLoop, List.foldl_append, List.foldl_cons, List.foldl_nil, UInt64.toNat_mod,
    UInt64.toNat_add, UInt64.toNat_mul, Nat.mod_add_mod, Nat.mul_comm]
  rfl

theorem bucketLoop_lt {bucketCount : UInt64} (hpos : 0 < bucketCount) (bytes : Bytes) :
    (bucketLoop bucketCount bytes).toNat < bucketCount.toNat :=
  UInt64.lt_iff_toNat_lt.mp (foldl_mod_lt bytes hpos)

/-! ### The surplus of the signed bytes -/

/-- The value of the bytes so far, and how far it is above what the loop has taken
    them for. -/
def surplusStep (bucketCount : Nat) (state : Nat × Int) (char : UInt8) : Nat × Int :=
  (256 * state.1 + char.toNat,
    256 * state.2 +
      if char.toNat < 128 then 0
      else if (bucketCount : Int) ∣ state.1 - state.2 then 256 - 2 ^ 64
      else 256)

/-- By how much a digest exceeds the number that the loop reduces: each byte of 0x80
    or more counts 256 at its place, less 2^64 if the bytes before it are a multiple
    of the bucket count for the loop. -/
def signSurplus (bucketCount : Nat) (bytes : Bytes) : Int :=
  (bytes.foldl (surplusStep bucketCount) (0, 0)).2

theorem foldl_surplusStep_fst (bucketCount : Nat) (bytes : Bytes) :
    (bytes.foldl (surplusStep bucketCount) (0, 0)).1 = beValue bytes := by
  induction bytes using List.reverseRecOn with
  | nil => rfl
  | append_singleton bytes char ih =>
    rw [List.foldl_append, List.foldl_cons, List.foldl_nil, beValue_concat, ← ih]
    rfl

theorem signSurplus_concat (bucketCount : Nat) (bytes : Bytes) (char : UInt8) :
    signSurplus bucketCount (bytes ++ [char]) =
      256 * signSurplus bucketCount bytes +
        if char.toNat < 128 then 0
        else if (bucketCount : Int) ∣ beValue bytes - signSurplus bucketCount bytes then 256 - 2 ^ 64
        else 256 := by
  rw [← foldl_surplusStep_fst bucketCount, signSurplus, List.foldl_append]
  rfl

/-- **One step, with the wrap-around made explicit.**  Below 2^56 buckets, the product
    does not wrap, and the sum wraps exactly on a byte of 0x80 or more behind a
    residue that is not 0. -/
theorem step_eq {residue : Nat} (h : residue < 2 ^ 56) (char : UInt8) :
    (((256 * residue + (charToSize char).toNat) % 2 ^ 64 : Nat) : Int) =
      256 * residue + char.toNat -
        if char.toNat < 128 then 0 else if residue = 0 then 256 - 2 ^ 64 else 256 := by
  have hchar : char.toNat < 256 := char.toNat_lt
  rw [toNat_charToSize]
  by_cases hlow : char.toNat < 128
  · rw [if_pos hlow, if_pos hlow]
    omega
  · rw [if_neg hlow, if_neg hlow]
    by_cases hzero : residue = 0
    · rw [if_pos hzero]
      omega
    · rw [if_neg hzero]
      omega

/-- **The loop reduces the digest less its surplus.** -/
theorem bucketLoop_modEq {bucketCount : UInt64} (hpos : 0 < bucketCount)
    (hmax : bucketCount.toNat ≤ 2 ^ 56) (bytes : Bytes) :
    ((bucketLoop bucketCount bytes).toNat : Int) ≡
      beValue bytes - signSurplus bucketCount.toNat bytes [ZMOD bucketCount.toNat] := by
  induction bytes using List.reverseRecOn with
  | nil => rfl
  | append_singleton bytes char ih =>
    have hlt := bucketLoop_lt hpos bytes
    -- the residue is 0 exactly when the number reduced so far is a multiple
    have hzero : (bucketLoop bucketCount bytes).toNat = 0 ↔
        (bucketCount.toNat : Int) ∣ beValue bytes - signSurplus bucketCount.toNat bytes := by
      rw [← Int.modEq_zero_iff_dvd]
      constructor
      · intro hresidue
        rw [hresidue] at ih
        exact ih.symm
      · intro hdvd
        have hresidue := Int.modEq_zero_iff_dvd.mp (ih.trans hdvd)
        exact Nat.eq_zero_of_dvd_of_lt (Int.natCast_dvd_natCast.mp hresidue) hlt
    rw [bucketLoop_concat, signSurplus_concat, beValue_concat]
    simp only [← hzero]
    have hstep := step_eq (Nat.lt_of_lt_of_le hlt hmax) char
    calc ((_ % bucketCount.toNat : Nat) : Int)
        ≡ ((256 * (bucketLoop bucketCount bytes).toNat + (charToSize char).toNat) % 2 ^ 64 : Nat)
          [ZMOD bucketCount.toNat] := by
          rw [Int.natCast_mod]
          exact Int.mod_modEq _ _
      _ ≡ _ [ZMOD bucketCount.toNat] := by
          rw [hstep]
          have hscaled := (ih.mul_left 256).add_right (char.toNat : Int)
          refine (hscaled.sub_right _).trans ?_
          push_cast
          ring_nf
          rfl

theorem sha1ModBucket_surplus_iff (hash : Digest) {bucketCount : UInt64} (hpos : 0 < bucketCount)
    (hmax : bucketCount.toNat ≤ 2 ^ 56) :
    (sha1ModBucket hash bucketCount).toNat = beValue hash.val % bucketCount.toNat ↔
      (bucketCount.toNat : Int) ∣ signSurplus bucketCount.toNat hash.val := by
  have hlt := bucketLoop_lt hpos hash.val
  have hloop := bucketLoop_modEq hpos hmax hash.val
  rw [sha1ModBucket_eq]
  constructor
  · intro hequal
    have hvalue : ((bucketLoop bucketCount hash.val).toNat : Int) ≡ beValue hash.val
        [ZMOD bucketCount.toNat] := by
      rw [hequal, Int.natCast_mod]
      exact Int.mod_modEq _ _
    have hsame := hvalue.symm.trans hloop
    rw [Int.modEq_iff_dvd] at hsame
    have hneg : (beValue hash.val : Int) - signSurplus bucketCount.toNat hash.val -
        beValue hash.val = -signSurplus bucketCount.toNat hash.val := by ring
    rwa [hneg, Int.dvd_neg] at hsame
  · intro hdvd
    have hvalue : ((bucketLoop bucketCount hash.val).toNat : Int) ≡ beValue hash.val
        [ZMOD bucketCount.toNat] := by
      refine hloop.trans (Int.modEq_iff_dvd.mpr ?_)
      rwa [sub_sub_cancel]
    have hnat := Int.natCast_modEq_iff.mp hvalue
    rwa [Nat.ModEq, Nat.mod_eq_of_lt hlt] at hnat

theorem dvd_signSurplus (bucketCount : Nat) (bytes : Bytes) :
    (256 : Int) ∣ signSurplus bucketCount bytes := by
  induction bytes using List.reverseRecOn with
  | nil => exact Int.dvd_zero 256
  | append_singleton bytes char _ =>
    rw [signSurplus_concat]
    apply Int.dvd_add (Int.dvd_mul_right 256 _)
    split
    · exact Int.dvd_zero 256
    · split
      · decide
      · decide

theorem signSurplus_of_low (bucketCount : Nat) {bytes : Bytes}
    (hlow : ∀ char ∈ bytes, char.toNat < 128) : signSurplus bucketCount bytes = 0 := by
  induction bytes using List.reverseRecOn with
  | nil => rfl
  | append_singleton bytes char ih =>
    have hchar : char.toNat < 128 := hlow char (by simp)
    have hbytes := ih fun other hother => hlow other (List.mem_append_left [char] hother)
    rw [signSurplus_concat, hbytes, if_pos hchar]
    rfl

/-- The two simple cases: no byte has its top bit set, or the top bits are multiples
    of the bucket count. -/
theorem sha1ModBucket_eq_mod_of (hash : Digest) {bucketCount : UInt64} (hpos : 0 < bucketCount)
    (hmax : bucketCount.toNat ≤ 2 ^ 56)
    (h : (∀ char ∈ hash.val, char.toNat < 128) ∨ bucketCount.toNat ∣ 256) :
    (sha1ModBucket hash bucketCount).toNat = beValue hash.val % bucketCount.toNat := by
  apply (sha1ModBucket_surplus_iff hash hpos hmax).mpr
  rcases h with hlow | hdvd
  · rw [signSurplus_of_low _ hlow]
    exact Int.dvd_zero _
  · exact Int.dvd_trans (Int.natCast_dvd_natCast.mpr hdvd) (dvd_signSurplus _ _)

/-- **Powers of two see the signs of the last bytes only.**  Each byte of 0x80 or more
    adds an odd multiple of 256 at its own place. -/
theorem two_pow_dvd_signSurplus_iff (bucketCount : Nat) (bytes : Bytes) {m : Nat} (hm : m ≤ 64) :
    (2 ^ m : Int) ∣ signSurplus bucketCount bytes ↔
      ∀ char ∈ bytes.rtake ((m - 1) / 8), char.toNat < 128 := by
  induction bytes using List.reverseRecOn generalizing m with
  | nil => simp [signSurplus]
  | append_singleton bytes char ih =>
    by_cases hsmall : m ≤ 8
    · have hnone : (m - 1) / 8 = 0 := by omega
      have hdvd : (2 ^ m : Int) ∣ 256 := by
        have hpow : (2 ^ m : Int) ∣ 2 ^ 8 := pow_dvd_pow 2 hsmall
        exact hpow
      rw [hnone]
      exact iff_of_true (hdvd.trans (dvd_signSurplus _ _)) (by simp)
    · -- the place of the last byte counts 256, and 2^64 is a multiple of 2^m
      obtain ⟨rest, rfl⟩ : ∃ rest, m = rest + 8 := ⟨m - 8, by omega⟩
      have hplaces : (rest + 8 - 1) / 8 = (rest - 1) / 8 + 1 := by omega
      have hwrap : (2 ^ (rest + 8) : Int) ∣ 2 ^ 64 := pow_dvd_pow 2 hm
      have hscale : ∀ value : Int,
          (2 ^ (rest + 8) : Int) ∣ 256 * value ↔ (2 ^ rest : Int) ∣ value := by
        intro value
        rw [pow_add, mul_comm ((2 : Int) ^ rest)]
        exact mul_dvd_mul_iff_left (by decide)
      rw [hplaces, List.rtake_concat_succ, signSurplus_concat]
      by_cases hlow : char.toNat < 128
      · rw [if_pos hlow, Int.add_zero, hscale, ih (by omega), List.forall_mem_append]
        simp [hlow]
      · rw [if_neg hlow]
        refine iff_of_false ?_ ?_
        · intro hdvd
          have hodd : (2 ^ rest : Int) ∣ signSurplus bucketCount bytes + 1 := by
            rw [← hscale]
            split at hdvd
            · have hsum := Int.dvd_add hdvd hwrap
              ring_nf at hsum ⊢
              exact hsum
            · ring_nf at hdvd ⊢
              exact hdvd
          have htwo : (2 : Int) ∣ 2 ^ rest := dvd_pow_self 2 (by omega)
          obtain ⟨quotient, hquotient⟩ := dvd_signSurplus bucketCount bytes
          have hdvdTwo := htwo.trans hodd
          rw [hquotient] at hdvdTwo
          omega
        · intro hall
          exact hlow (hall char (by simp))

/-- **The index is the digest modulo the bucket count exactly when the surplus is
    divisible by it**, for every digest and every number of buckets up to 2^56.  It is so
    for each digest that has no byte of 0x80 or more and, if the number of buckets
    divides 256, for each digest; if it is a power of two, then exactly for the digests
    that have no such byte among the last ones, which in the deployed store of 1024
    buckets is the last byte alone. -/
theorem sha1ModBucket_eq_mod_iff (hash : Digest) (bucketCount : UInt64) (hpos : 1 ≤ bucketCount)
    (hmax : bucketCount.toNat ≤ 2 ^ 56) :
    ((sha1ModBucket hash bucketCount).toNat = beValue hash.val % bucketCount.toNat ↔
      (bucketCount.toNat : Int) ∣ signSurplus bucketCount.toNat hash.val) ∧
    ((∀ char ∈ hash.val, char.toNat < 128) ∨ bucketCount.toNat ∣ 256 →
      (sha1ModBucket hash bucketCount).toNat = beValue hash.val % bucketCount.toNat) ∧
    (∀ k, bucketCount.toNat = 2 ^ k →
      ((sha1ModBucket hash bucketCount).toNat = beValue hash.val % bucketCount.toNat ↔
        ∀ char ∈ hash.val.rtake ((k - 1) / 8), char.toNat < 128)) := by
  have hlt : 0 < bucketCount := by
    rw [UInt64.lt_iff_toNat_lt]
    exact UInt64.le_iff_toNat_le.mp hpos
  refine ⟨sha1ModBucket_surplus_iff hash hlt hmax, sha1ModBucket_eq_mod_of hash hlt hmax, ?_⟩
  intro k hk
  rw [sha1ModBucket_surplus_iff hash hlt hmax]
  have hle : k ≤ 56 := by
    rw [hk] at hmax
    exact (Nat.pow_le_pow_iff_right (by decide)).mp hmax
  have hcast : ((bucketCount.toNat : Nat) : Int) = 2 ^ k := by
    rw [hk]
    push_cast
    rfl
  rw [hcast]
  exact two_pow_dvd_signSurplus_iff bucketCount.toNat hash.val (by omega)

/-- A digest of which only the last byte is below 0x80. -/
def highDigest : Digest := ⟨List.replicate 19 0x99 ++ [7], rfl⟩

theorem sha1ModBucket_eq_mod_highDigest :
    (sha1ModBucket highDigest 1024).toNat = beValue highDigest.val % 1024 ∧
      ¬ (sha1ModBucket highDigest 131072).toNat = beValue highDigest.val % 131072 := by
  obtain ⟨-, -, hdeployed⟩ := sha1ModBucket_eq_mod_iff highDigest 1024 (by decide) (by decide)
  obtain ⟨-, -, hlarger⟩ := sha1ModBucket_eq_mod_iff highDigest 131072 (by decide) (by decide)
  constructor
  · apply (hdeployed 10 (by decide)).mpr
    intro char hchar
    obtain rfl := List.mem_singleton.mp hchar
    decide
  · intro hequal
    have hlast := (hlarger 17 (by decide)).mp hequal
    exact absurd (hlast 0x99 (by decide)) (by decide)

/-- The digest of `"abc"` in a store of 1024 buckets. -/
theorem sha1ModBucket_digestOfAbc :
    (sha1ModBucket digestOfAbc 1024).toNat = 925 ∧ beValue digestOfAbc.val % 1024 = 157 ∧
      ¬ (sha1ModBucket digestOfAbc 1024).toNat = beValue digestOfAbc.val % 1024 := by
  decide +kernel

/-! ### Powers of two -/

def signedValue (bytes : Bytes) : Int :=
  bytes.foldl (fun value char => 256 * value + signedByte char) 0

theorem signedValue_concat (bytes : Bytes) (char : UInt8) :
    signedValue (bytes ++ [char]) = 256 * signedValue bytes + signedByte char := by
  rw [signedValue, List.foldl_append]
  rfl

theorem signedValue_eq_sum (bytes : Bytes) :
    signedValue bytes = ∑ i ∈ Finset.range bytes.length,
      signedByte (bytes.getD i 0) * 256 ^ (bytes.length - 1 - i) := by
  induction bytes using List.reverseRecOn with
  | nil => rfl
  | append_singleton bytes char ih =>
    rw [signedValue_concat, ih, List.length_append, List.length_singleton, Finset.sum_range_succ,
      Finset.mul_sum]
    congr 1
    · apply Finset.sum_congr rfl
      intro i hi
      have hlt := Finset.mem_range.mp hi
      have hpow : bytes.length + 1 - 1 - i = (bytes.length - 1 - i) + 1 := by omega
      rw [hpow, pow_succ, List.getD_append _ _ _ _ hlt]
      ring
    · simp

/-- **The loop computes the value of the signed bytes** if the bucket count divides
    2^64. -/
theorem bucketLoop_modEq_signed {bucketCount : UInt64} (hdvd : bucketCount.toNat ∣ 2 ^ 64)
    (bytes : Bytes) :
    ((bucketLoop bucketCount bytes).toNat : Int) ≡ signedValue bytes [ZMOD bucketCount.toNat] := by
  induction bytes using List.reverseRecOn with
  | nil => rfl
  | append_singleton bytes char ih =>
    have hword : (bucketCount.toNat : Int) ∣ 2 ^ 64 := by exact_mod_cast hdvd
    have hchar := (charToSize_modEq char).of_dvd hword
    rw [bucketLoop_concat, signedValue_concat, Nat.mod_mod_of_dvd _ hdvd, Int.natCast_mod]
    refine (Int.mod_modEq _ _).trans ?_
    push_cast
    exact (ih.mul_left 256).add hchar

/-! ### Counting the digests of a bucket -/

/-- Flipping the top bit makes an unsigned byte of a signed one, 128 higher. -/
def flipTop (char : UInt8) : UInt8 := char ^^^ 0x80

theorem toNat_flipTop (char : UInt8) : ((flipTop char).toNat : Int) = signedByte char + 128 := by
  have hbits : ∀ bits : BitVec 8, ((flipTop ⟨bits⟩).toNat : Int) = signedByte ⟨bits⟩ + 128 := by
    decide
  exact hbits char.toBitVec

theorem flipTop_flipTop (char : UInt8) : flipTop (flipTop char) = char := by
  rw [flipTop, flipTop, UInt8.xor_assoc, UInt8.xor_self, UInt8.xor_zero]

theorem map_flipTop_map_flipTop (bytes : Bytes) : (bytes.map flipTop).map flipTop = bytes := by
  have hcomp : flipTop ∘ flipTop = id := funext flipTop_flipTop
  rw [List.map_map, hcomp, List.map_id]

/-- The value of a digest of `width` bytes that are all 0x80. -/
def shift (width : Nat) : Nat := beValue (List.replicate width 0x80)

theorem beValue_map_flipTop (bytes : Bytes) :
    (beValue (bytes.map flipTop) : Int) = signedValue bytes + shift bytes.length := by
  induction bytes using List.reverseRecOn with
  | nil => rfl
  | append_singleton bytes char ih =>
    have hchar := toNat_flipTop char
    rw [List.map_append, List.map_singleton, beValue_concat, signedValue_concat, List.length_append,
      List.length_singleton, shift, List.replicate_succ', beValue_concat]
    push_cast
    rw [ih, hchar, shift]
    ring

/-- The digests, numbered from 0 to 2^160 - 1 by their signed value. -/
def digestNumber (hash : Digest) : Nat := beValue (hash.val.map flipTop)

theorem digestNumber_lt (hash : Digest) : digestNumber hash < 256 ^ 20 := by
  have hlt := leValue_lt (hash.val.map flipTop).reverse
  rwa [List.length_reverse, List.length_map, hash.property] at hlt

theorem digestNumber_injective : Function.Injective digestNumber := by
  intro left right h
  have hbytes : (left.val.map flipTop).reverse = (right.val.map flipTop).reverse := by
    rw [← leBytes_leValue (left.val.map flipTop).reverse,
      ← leBytes_leValue (right.val.map flipTop).reverse]
    have hlength : (left.val.map flipTop).reverse.length =
        (right.val.map flipTop).reverse.length := by
      rw [List.length_reverse, List.length_reverse, List.length_map, List.length_map,
        left.property, right.property]
    rw [hlength]
    exact congrArg _ h
  apply Subtype.ext
  rw [← map_flipTop_map_flipTop left.val, ← map_flipTop_map_flipTop right.val,
    List.reverse_injective hbytes]

theorem exists_digestNumber_eq {number : Nat} (h : number < 256 ^ 20) :
    ∃ hash, digestNumber hash = number := by
  refine ⟨⟨(leBytes 20 number).reverse.map flipTop, ?_⟩, ?_⟩
  · rw [List.length_map, List.length_reverse, length_leBytes]
  · rw [digestNumber, map_flipTop_map_flipTop, beValue, List.reverse_reverse, leValue_leBytes,
      Nat.mod_eq_of_lt h]

/-- Sets of digests are counted by the numbers of their elements. -/
theorem card_digests {p : Digest → Prop} {q : Nat → Prop} [DecidablePred q]
    (h : ∀ hash, p hash ↔ q (digestNumber hash)) :
    Nat.card {hash : Digest // p hash} = (256 ^ 20).count q := by
  have hbijective : Function.Bijective
      (fun hash : {hash : Digest // p hash} =>
        (⟨digestNumber hash.val, digestNumber_lt hash.val, (h hash.val).mp hash.property⟩ :
          {number : Nat // number < 256 ^ 20 ∧ q number})) := by
    constructor
    · intro left right heq
      exact Subtype.ext (digestNumber_injective (congrArg Subtype.val heq))
    · rintro ⟨number, hlt, hq⟩
      obtain ⟨hash, rfl⟩ := exists_digestNumber_eq hlt
      exact ⟨⟨hash, (h hash).mpr hq⟩, rfl⟩
  rw [Nat.card_congr (Equiv.ofBijective _ hbijective), Nat.card_eq_fintype_card,
    Nat.count_eq_card_fintype]

theorem toNat_ofNat_two_pow {k : Nat} (hk : k ≤ 63) : (UInt64.ofNat (2 ^ k)).toNat = 2 ^ k := by
  apply UInt64.toNat_ofNat_of_lt'
  have hlt : k < 64 := by omega
  exact Nat.pow_lt_pow_right (Nat.lt_succ_self 1) hlt

/-- A digest falls into the bucket `index` of `2 ^ k` exactly when its number is
    `index` above the shift, modulo `2 ^ k`. -/
theorem sha1ModBucket_eq_iff {k : Nat} (hk : k ≤ 63) {index : Nat} (hindex : index < 2 ^ k)
    (hash : Digest) :
    (sha1ModBucket hash (UInt64.ofNat (2 ^ k))).toNat = index ↔
      digestNumber hash ≡ index + shift 20 [MOD 2 ^ k] := by
  have hcount := toNat_ofNat_two_pow hk
  have hpos : 0 < UInt64.ofNat (2 ^ k) := by
    rw [UInt64.lt_iff_toNat_lt, hcount]
    exact Nat.two_pow_pos k
  have hlt := bucketLoop_lt hpos hash.val
  have hdvd : (UInt64.ofNat (2 ^ k)).toNat ∣ 2 ^ 64 := by
    rw [hcount]
    exact Nat.pow_dvd_pow 2 (by omega)
  have hsigned := bucketLoop_modEq_signed hdvd hash.val
  have hnumber : (digestNumber hash : Int) = signedValue hash.val + shift 20 := by
    rw [digestNumber, beValue_map_flipTop, hash.property]
  rw [hcount] at hlt hsigned
  rw [sha1ModBucket_eq]
  constructor
  · rintro rfl
    rw [← Int.natCast_modEq_iff, hnumber]
    push_cast
    exact hsigned.symm.add_right _
  · intro hmod
    rw [← Int.natCast_modEq_iff, hnumber] at hmod
    push_cast at hmod
    have hsame : (bucketLoop (UInt64.ofNat (2 ^ k)) hash.val).toNat ≡ index [MOD 2 ^ k] := by
      rw [← Int.natCast_modEq_iff]
      push_cast at hsigned ⊢
      exact hsigned.trans (Int.ModEq.add_right_cancel' _ hmod)
    exact hsame.eq_of_lt_of_lt hlt hindex

/-- **Every bucket of a power of two gets equally many digests.**  For every `k` up to
    63 and `2 ^ k` buckets, the index of a digest is the value of its signed bytes
    modulo `2 ^ k`, and each index belongs to `2 ^ (160 - k)` of the `2 ^ 160`
    digests. -/
theorem buckets_balanced (k : Nat) (hk : k ≤ 63) :
    (∀ hash : Digest, ((sha1ModBucket hash (UInt64.ofNat (2 ^ k))).toNat : Int) ≡
      ∑ i ∈ Finset.range 20, signedByte (hash.val.getD i 0) * 256 ^ (19 - i) [ZMOD 2 ^ k]) ∧
    Nat.card Digest = 2 ^ 160 ∧
    ∀ index < 2 ^ k,
      Nat.card {hash : Digest // (sha1ModBucket hash (UInt64.ofNat (2 ^ k))).toNat = index} =
        2 ^ (160 - k) := by
  have hcount := toNat_ofNat_two_pow hk
  have hdigests : (256 : Nat) ^ 20 = 2 ^ 160 := by norm_num
  refine ⟨?_, ?_, ?_⟩
  · intro hash
    have hdvd : (UInt64.ofNat (2 ^ k)).toNat ∣ 2 ^ 64 := by
      rw [hcount]
      exact Nat.pow_dvd_pow 2 (by omega)
    have hsigned := bucketLoop_modEq_signed hdvd hash.val
    rw [hcount, signedValue_eq_sum, hash.property] at hsigned
    push_cast at hsigned
    exact hsigned
  · have hall : Nat.card {hash : Digest // True} = (256 ^ 20).count (fun _ => True) :=
      card_digests fun _ => Iff.rfl
    rw [Nat.count_true, hdigests] at hall
    rw [← hall]
    exact Nat.card_congr (Equiv.subtypeUnivEquiv fun _ => trivial).symm
  · intro index hindex
    have hsplit : (2 : Nat) ^ 160 = 2 ^ (160 - k) * 2 ^ k := by
      rw [← pow_add]
      congr 1
      omega
    have hcard := @card_digests _ (fun number => number ≡ index + shift 20 [MOD 2 ^ k]) _
      (sha1ModBucket_eq_iff hk hindex)
    rw [hcard, hdigests, Nat.count_modEq_card _ (Nat.two_pow_pos k), hsplit, Nat.mul_mod_left,
      Nat.mul_div_cancel _ (Nat.two_pow_pos k), if_neg (Nat.not_lt_zero _),
      Nat.add_zero]

theorem buckets_balanced_1024 :
    Nat.card {hash : Digest // (sha1ModBucket hash (UInt64.ofNat (2 ^ 10))).toNat = 925} =
      2 ^ 150 :=
  (buckets_balanced 10 (by decide)).2.2 925 (by decide)

end Cdht.BucketIndex
