/-
  Cdht/StoreInvariant.lean
  ========================
  **Where the entries of the store are, and how they get there.**

  A put looks into one chain only, yet no digest is in the store twice.  That rests
  on two facts that every call keeps: an entry sits in the bucket of its digest,
  and the digests within one chain differ (`Placed`).  A digest that is in the
  store at all is then in its own chain, which is the one a put searches
  (`mem_digests_iff`).
-/
import Mathlib.Data.List.Nodup
import Cdht.StoreRefinement

namespace Cdht.StoreInvariant

open Cdht.Memory Cdht.Machine Cdht.Store Cdht.StoreRefinement

def chainDigests (chain : List KvEntry) : List Digest := chain.map KvEntry.key

/-- All digests of the store, bucket by bucket. -/
def digests (store : KvStore) : List Digest := chainDigests store.buckets.flatten

/-! ### The invariant -/

structure Placed (store : KvStore) : Prop where
  ready : store.Ready
  indexOf_key : ∀ index chain, store.buckets[index]? = some chain →
    ∀ entry ∈ chain, store.indexOf entry.key = index
  distinct : ∀ chain ∈ store.buckets, (chainDigests chain).Nodup

theorem placed_new {bucketCount : UInt64} (hpos : 0 < bucketCount) :
    Placed (kvStoreNew bucketCount) := by
  have hempty : ∀ chain ∈ (kvStoreNew bucketCount).buckets, chain = [] :=
    fun chain hchain => (List.mem_replicate.mp hchain).2
  refine ⟨kvStoreNew_ready hpos, ?_, ?_⟩
  · intro index chain hchain entry hentry
    rw [hempty chain (List.mem_of_getElem? hchain)] at hentry
    cases hentry
  · intro chain hchain
    rw [hempty chain hchain]
    exact List.nodup_nil

theorem lookupChain_isSome_iff {chain : List KvEntry} {digest : Digest} :
    (lookupChain chain digest).isSome ↔ digest ∈ chainDigests chain := by
  rw [lookupChain, List.find?_isSome, chainDigests, List.mem_map]
  simp only [decide_eq_true_eq]

theorem putChain_eq (chain : List KvEntry) (digest : Digest) (data : Bytes) :
    putChain chain digest data =
      chain ++ if digest ∈ chainDigests chain then [] else [kvEntryNew digest data] := by
  rw [putChain]
  simp only [lookupChain_isSome_iff]
  split
  · rw [List.append_nil]
  · rfl

theorem nodup_putChain {chain : List KvEntry} (h : (chainDigests chain).Nodup) (digest : Digest)
    (data : Bytes) : (chainDigests (putChain chain digest data)).Nodup := by
  rw [putChain_eq]
  split
  · rwa [List.append_nil]
  · rename_i habsent
    rw [chainDigests, List.map_append]
    apply List.Nodup.append h
    · exact List.nodup_singleton _
    · intro other hother hnew
      obtain rfl : other = digest := List.mem_singleton.mp hnew
      exact habsent hother

namespace Placed

variable {store : KvStore} (hplaced : Placed store)

include hplaced

theorem getElem?_indexOf (digest : Digest) :
    store.buckets[store.indexOf digest]? = some (store.chainOf digest) := by
  have hindex : store.indexOf digest < store.buckets.length :=
    store.length_buckets ▸ hplaced.ready.indexOf_lt digest
  rw [KvStore.chainOf, List.getD, List.getElem?_eq_getElem hindex, Option.getD_some]

/-- A digest is in the store exactly when it is in the chain that a put searches. -/
theorem mem_digests_iff (digest : Digest) :
    digest ∈ digests store ↔ digest ∈ chainDigests (store.chainOf digest) := by
  constructor
  · intro hmem
    obtain ⟨entry, hentry, rfl⟩ := List.mem_map.mp hmem
    obtain ⟨chain, hchain, hentry⟩ := List.mem_flatten.mp hentry
    obtain ⟨index, hindex⟩ := List.getElem?_of_mem hchain
    have hown : some chain = some (store.chainOf entry.key) := by
      rw [← hplaced.getElem?_indexOf, hplaced.indexOf_key index chain hindex entry hentry, hindex]
    rw [← Option.some.inj hown]
    exact List.mem_map_of_mem hentry
  · intro hmem
    obtain ⟨entry, hentry, hkey⟩ := List.mem_map.mp hmem
    refine List.mem_map.mpr ⟨entry, List.mem_flatten.mpr ⟨_, ?_, hentry⟩, hkey⟩
    exact List.mem_of_getElem? (hplaced.getElem?_indexOf digest)

theorem nodup_digests : (digests store).Nodup := by
  rw [digests, chainDigests, List.map_flatten, List.nodup_flatten]
  constructor
  · intro keys hkeys
    obtain ⟨chain, hchain, rfl⟩ := List.mem_map.mp hkeys
    exact hplaced.distinct chain hchain
  · -- a digest in two chains would have two bucket indices
    rw [List.pairwise_map, List.pairwise_iff_getElem]
    intro i j hi hj hij digest hleft hright
    obtain ⟨entry, hentry, rfl⟩ := List.mem_map.mp hleft
    obtain ⟨entry', hentry', hkey⟩ := List.mem_map.mp hright
    have hindex := hplaced.indexOf_key i _ (List.getElem?_eq_getElem hi) entry hentry
    have hindex' := hplaced.indexOf_key j _ (List.getElem?_eq_getElem hj) entry' hentry'
    rw [hkey] at hindex'
    omega

theorem put (digest : Digest) (data : Bytes) :
    Placed (store.setBucket (store.indexOf digest)
      (putChain (store.chainOf digest) digest data)) := by
  refine ⟨⟨hplaced.ready.count_pos, hplaced.ready.locks_free⟩, ?_, ?_⟩
  · intro index chain hchain entry hentry
    by_cases hindex : store.indexOf digest = index
    · subst hindex
      have hlt := store.length_buckets ▸ hplaced.ready.indexOf_lt digest
      have hown := (List.getElem?_set_self hlt).symm.trans hchain
      obtain rfl := Option.some.inj hown
      rw [putChain_eq] at hentry
      rcases List.mem_append.mp hentry with hold | hnew
      · exact hplaced.indexOf_key _ _ (hplaced.getElem?_indexOf digest) entry hold
      · split at hnew
        · cases hnew
        · obtain rfl := List.mem_singleton.mp hnew
          rfl
    · have hother : store.buckets[index]? = some chain :=
        (List.getElem?_set_ne hindex).symm.trans hchain
      exact hplaced.indexOf_key index chain hother entry hentry
  · intro chain hchain
    rcases List.mem_or_eq_of_mem_set hchain with hold | rfl
    · exact hplaced.distinct chain hold
    · apply nodup_putChain
      exact hplaced.distinct _ (List.mem_of_getElem? (hplaced.getElem?_indexOf digest))

end Placed

/-! ### What one call does to the store -/

/-- One chain may have got one entry at its end, for a digest that was not in the
    store; everything else is as before. -/
def GrowsBy (digest : Digest) (data : Bytes) (old new : KvStore) : Prop :=
  new.bucketCount = old.bucketCount ∧ new.bucketLocks = old.bucketLocks ∧
    ∃ (index : Nat) (chain added : List KvEntry), old.buckets[index]? = some chain ∧
      new.buckets[index]? = some (chain ++ added) ∧
      (∀ other, other ≠ index → new.buckets[other]? = old.buckets[other]?) ∧
      (digest ∈ digests old → added = []) ∧
      (digest ∉ digests old → added = [kvEntryNew digest data])

section Runs

variable (sha1 : Bytes → Digest)

theorem storeStep_put {store : KvStore} (hplaced : Placed store) (key data : Bytes) :
    ∃ store', storeStep sha1 store (.put key data) = .ok (.stored, store') ∧ Placed store' ∧
      GrowsBy (dig sha1 key) data store store' := by
  refine ⟨_, ?_, hplaced.put (dig sha1 key) data, rfl, rfl, ?_⟩
  · simp only [storeStep, hplaced.ready.kvStorePut_eq, ok_bind, pure_eq_ok]
  have hlt := store.length_buckets ▸ hplaced.ready.indexOf_lt (dig sha1 key)
  refine ⟨store.indexOf (dig sha1 key), store.chainOf (dig sha1 key),
    if dig sha1 key ∈ chainDigests (store.chainOf (dig sha1 key)) then []
      else [kvEntryNew (dig sha1 key) data],
    hplaced.getElem?_indexOf _, ?_, ?_, ?_, ?_⟩
  · rw [← putChain_eq]
    exact List.getElem?_set_self hlt
  · intro other hother
    exact List.getElem?_set_ne hother.symm
  · intro hmem
    rw [if_pos ((hplaced.mem_digests_iff _).mp hmem)]
  · intro habsent
    rw [if_neg (fun hmem => habsent ((hplaced.mem_digests_iff _).mpr hmem))]

theorem storeStep_get {store : KvStore} (hplaced : Placed store) (key : Bytes) :
    ∃ reply, storeStep sha1 store (.get key) = .ok (reply, store) := by
  simp only [storeStep, hplaced.ready.kvStoreGet_eq, ok_bind, pure_eq_ok]
  rcases lookupChain (store.chainOf (dig sha1 key)) (dig sha1 key) with _ | entry
  · exact ⟨_, rfl⟩
  · exact ⟨_, rfl⟩

/-- **One call keeps the invariant and the number of buckets.** -/
theorem storeStep_placed (bucketCount : UInt64) (store : KvStore) (op : StoreOp)
    (reply : StoreReply) (store' : KvStore)
    (h : Placed store ∧ store.bucketCount = bucketCount)
    (hstep : storeStep sha1 store op = .ok (reply, store')) :
    Placed store' ∧ store'.bucketCount = bucketCount := by
  cases op with
  | put key data =>
    obtain ⟨next, hput, hnext, hcount, -⟩ := storeStep_put sha1 h.1 key data
    rw [hput] at hstep
    cases hstep
    exact ⟨hnext, hcount.trans h.2⟩
  | get key =>
    obtain ⟨answer, hget⟩ := storeStep_get sha1 h.1 key
    rw [hget] at hstep
    cases hstep
    exact h

/-- **The store only grows, and only at the end of the right chain.**  After every
    sequence of calls, with any collisions of digests and buckets: each entry sits in
    the bucket of its digest, which exists, and no digest is in the store twice.  A
    further get leaves the store unchanged.  A further put changes one chain at most,
    by one entry at its end, which it adds exactly if the digest was not in the
    store. -/
theorem store_append_only (bucketCount : UInt64) (hcount : 1 ≤ bucketCount) (ops : List StoreOp) :
    ∃ replies store, run (storeStep sha1) (kvStoreNew bucketCount) ops = .ok (replies, store) ∧
      (∀ (index : Nat) chain entry, store.buckets[index]? = some chain → entry ∈ chain →
        index = (sha1ModBucket entry.key bucketCount).toNat ∧ index < bucketCount.toNat) ∧
      (digests store).Nodup ∧
      (∀ key, ∃ reply, storeStep sha1 store (.get key) = .ok (reply, store)) ∧
      (∀ key data, ∃ store', storeStep sha1 store (.put key data) = .ok (.stored, store') ∧
        GrowsBy (dig sha1 key) data store store') := by
  have hpos := count_pos_of_one_le hcount
  obtain ⟨store, hrun⟩ := run_store sha1 hpos ops
  obtain ⟨hplaced, hsame⟩ := run_invariant (storeStep sha1) _ (storeStep_placed sha1 bucketCount)
    ops _ _ store ⟨placed_new hpos, rfl⟩ hrun
  refine ⟨_, store, hrun, ?_, hplaced.nodup_digests, storeStep_get sha1 hplaced, ?_⟩
  · intro index chain entry hchain hentry
    have hindex := hplaced.indexOf_key index chain hchain entry hentry
    rw [← hindex, ← hsame]
    exact ⟨rfl, hplaced.ready.indexOf_lt entry.key⟩
  · intro key data
    obtain ⟨store', hput, -, hgrows⟩ := storeStep_put sha1 hplaced key data
    exact ⟨store', hput, hgrows⟩

end Runs

theorem store_append_only_abc :
    ∃ replies store, run (storeStep fun _ => digestOfAbc) (kvStoreNew 1024)
        [.put [97, 98, 99] [1, 2], .put [97, 98, 99] [3], .get [97, 98, 99]] =
          .ok (replies, store) ∧ (digests store).Nodup := by
  obtain ⟨replies, store, hrun, -, hnodup, -⟩ :=
    store_append_only (fun _ => digestOfAbc) 1024 (by decide)
      [.put [97, 98, 99] [1, 2], .put [97, 98, 99] [3], .get [97, 98, 99]]
  exact ⟨replies, store, hrun, hnodup⟩

end Cdht.StoreInvariant
