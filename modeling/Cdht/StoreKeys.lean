/-
  Cdht/StoreKeys.lean
  ===================
  **Which keys the store tells apart.**

  The store hashes keys and never compares them, so two keys are one key to it if
  their digests agree.  That is the design as long as all bytes of a key go into its
  digest.  `key_size` is a `size_t`, but the length parameter of `SHA1` is a
  `uint32_t`: from 2^32 bytes on only the first `key_size mod 2^32` bytes are hashed,
  and a long key is taken for a short one.
-/
import Cdht.StoreRefinement

namespace Cdht.StoreKeys

open Cdht.Memory Cdht.Store Cdht.StoreRefinement Cdht.FirstWriteMap

/-! ### The bytes that are hashed -/

def hashedBytes (key : Bytes) : Bytes := key.take (key.length % 2 ^ 32)

theorem dig_eq (sha1 : Bytes → Digest) (key : Bytes) : dig sha1 key = sha1 (hashedBytes key) := rfl

theorem length_hashedBytes_lt (key : Bytes) : (hashedBytes key).length < 2 ^ 32 := by
  rw [hashedBytes, List.length_take]
  have hmod : key.length % 2 ^ 32 < 2 ^ 32 := Nat.mod_lt _ (by decide)
  omega

theorem hashedBytes_eq_self_iff {key : Bytes} : hashedBytes key = key ↔ key.length < 2 ^ 32 := by
  constructor
  · intro hself
    rw [← hself]
    exact length_hashedBytes_lt key
  · intro hshort
    rw [hashedBytes, Nat.mod_eq_of_lt hshort, List.take_length]

/-! ### A put and a get on an empty store -/

section TwoCalls

variable (sha1 : Bytes → Digest) (bucketCount : UInt64)

/-- Data put under one key of an empty store is found under the other. -/
def Finds (putKey getKey data : Bytes) : Prop :=
  ∃ store store', kvStorePut sha1 (kvStoreNew bucketCount) putKey data = .ok store ∧
    kvStoreGet sha1 store getKey = .ok ((some data, data.length), store')

variable {bucketCount}

theorem put_then_get (hpos : 0 < bucketCount) (putKey getKey data : Bytes) :
    ∃ store, kvStorePut sha1 (kvStoreNew bucketCount) putKey data = .ok store ∧
      kvStoreGet sha1 store getKey =
        .ok (if dig sha1 getKey = dig sha1 putKey then (some data, data.length) else (none, 0),
          store) := by
  have hnew := @represents_new bucketCount hpos
  have hput := represents_put hnew (dig sha1 putKey) data
  refine ⟨_, hnew.ready.kvStorePut_eq sha1 putKey data, ?_⟩
  have hlookup := hput.lookup (dig sha1 getKey)
  rw [hput.ready.kvStoreGet_eq]
  by_cases hsame : dig sha1 getKey = dig sha1 putKey
  · simp only [write_apply, empty, hsame, if_true, Option.none_or] at hlookup ⊢
    obtain ⟨entry, hentry, rfl⟩ := Option.map_eq_some_iff.mp hlookup
    simp only [hentry]
  · simp only [write_apply, empty, hsame, if_false, Option.none_or, Option.map_eq_none_iff]
      at hlookup ⊢
    simp only [hlookup]

theorem finds_iff (hpos : 0 < bucketCount) (putKey getKey data : Bytes) :
    Finds sha1 bucketCount putKey getKey data ↔
      sha1 (hashedBytes putKey) = sha1 (hashedBytes getKey) := by
  obtain ⟨store, hput, hget⟩ := put_then_get sha1 hpos putKey getKey data
  rw [dig_eq, dig_eq] at hget
  constructor
  · rintro ⟨store', store'', hput', hget'⟩
    rw [hput] at hput'
    cases hput'
    by_contra hdiffer
    rw [hget, if_neg (fun heq => hdiffer heq.symm)] at hget'
    cases hget'
  · intro hsame
    rw [if_pos hsame.symm] at hget
    exact ⟨store, store, hput, hget⟩

end TwoCalls

/-! ### Keys that are told apart by all their bytes -/

/-- A hash function under which `key` has a digest of its own. -/
def tellsApart (key : Bytes) : Bytes → Digest := fun bytes =>
  if bytes = key then ⟨List.replicate 20 1, List.length_replicate⟩
  else ⟨List.replicate 20 2, List.length_replicate⟩

theorem tellsApart_eq_iff {key left right : Bytes} :
    tellsApart key left = tellsApart key right ↔ (left = key ↔ right = key) := by
  unfold tellsApart
  by_cases hleft : left = key
  · by_cases hright : right = key
    · simp only [hleft, hright, if_true]
    · simp only [hleft, hright, if_true, if_false, iff_false]
      decide
  · by_cases hright : right = key
    · simp only [hleft, hright, if_true, if_false, iff_true]
      decide
    · simp only [hleft, hright, if_false]

/-- If the cut keys collide exactly when the keys do, under the hash function that singles
    out `key`, then `key` is not cut. -/
theorem short_of_tellsApart {key other : Bytes} (hne : key ≠ other)
    (h : tellsApart key (hashedBytes key) = tellsApart key (hashedBytes other) →
      tellsApart key key = tellsApart key other) : key.length < 2 ^ 32 := by
  by_contra hlong
  have hcut : hashedBytes key ≠ key := fun hself => hlong (hashedBytes_eq_self_iff.mp hself)
  have hother : hashedBytes other ≠ key := by
    intro heq
    apply hlong
    rw [← heq]
    exact length_hashedBytes_lt other
  have hsame := h (tellsApart_eq_iff.mpr (iff_of_false hcut hother))
  exact hne (tellsApart_eq_iff.mp hsame |>.mp rfl).symm

/-- **Keys are identified by all their bytes exactly below 4 GiB.**  For every number of
    buckets, all keys and all data: whatever the hash function is, data put under the
    first key of an empty store are found under the second one just if the hashes of
    the whole keys agree, if and only if the keys are equal or both are shorter than
    2^32 bytes. -/
theorem keys_identified_iff (bucketCount : UInt64) (hcount : 1 ≤ bucketCount)
    (putKey getKey data : Bytes) :
    (∀ sha1 : Bytes → Digest,
      Finds sha1 bucketCount putKey getKey data ↔ sha1 putKey = sha1 getKey) ↔
    putKey = getKey ∨ (putKey.length < 2 ^ 32 ∧ getKey.length < 2 ^ 32) := by
  have hpos := count_pos_of_one_le hcount
  constructor
  · intro hall
    by_cases hsame : putKey = getKey
    · exact Or.inl hsame
    · right
      constructor
      · apply short_of_tellsApart hsame
        intro hcollide
        exact (hall _).mp ((finds_iff _ hpos putKey getKey data).mpr hcollide)
      · apply short_of_tellsApart (fun heq => hsame heq.symm)
        intro hcollide
        exact ((hall _).mp ((finds_iff _ hpos putKey getKey data).mpr hcollide.symm)).symm
  · rintro (rfl | ⟨hput, hget⟩) sha1
    · rw [finds_iff sha1 hpos]
      exact iff_of_true rfl rfl
    · rw [finds_iff sha1 hpos, hashedBytes_eq_self_iff.mpr hput, hashedBytes_eq_self_iff.mpr hget]

theorem keys_identified_abc :
    Finds (fun _ => digestOfAbc) 1024 [97, 98, 99] [97] [1, 2] := by
  apply ((keys_identified_iff 1024 (by decide) [97, 98, 99] [97] [1, 2]).mpr
    (Or.inr ⟨by decide, by decide⟩) fun _ => digestOfAbc).mpr
  rfl

/-- 2^32 + 1 bytes `a`. -/
def longKey : Bytes := List.replicate (2 ^ 32 + 1) 97

/-- Of the key `longKey` only the first byte is hashed, and its data are found under the
    key `a`, whose hash differs. -/
theorem longKey_taken_for_short :
    Finds (tellsApart [97]) 1024 longKey [97] [1, 2] ∧
      tellsApart [97] longKey ≠ tellsApart [97] [97] ∧
      ¬ ∀ sha1 : Bytes → Digest, Finds sha1 1024 longKey [97] [1, 2] ↔ sha1 longKey = sha1 [97] := by
  have hlength : longKey.length = 2 ^ 32 + 1 := List.length_replicate
  have hcut : hashedBytes longKey = hashedBytes [97] := by
    rw [hashedBytes, hlength, longKey, List.take_replicate]
    rfl
  have hne : longKey ≠ [97] := by
    intro heq
    rw [heq] at hlength
    exact absurd hlength (by decide)
  have hfinds : Finds (tellsApart [97]) 1024 longKey [97] [1, 2] := by
    rw [finds_iff _ (by decide), hcut]
  have hdiffer : tellsApart [97] longKey ≠ tellsApart [97] [97] := by
    intro heq
    exact hne ((tellsApart_eq_iff.mp heq).mpr rfl)
  exact ⟨hfinds, hdiffer, fun hall => hdiffer ((hall _).mp hfinds)⟩

end Cdht.StoreKeys
