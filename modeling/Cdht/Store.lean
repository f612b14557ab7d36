/-
  Cdht/Store.lean
  ===============
  **The key-value store** (`src/database/store.c`, `include/database/store.h`).

  The store is an array of buckets, each a linked chain of entries with a lock of
  its own.  A chain is the list of its entries in `next` order; the two
  `while(1)` walks of the source are `putWalk` and `getWalk`, which stand on an
  entry and look at `node->next` only after the key comparison, as the source
  does.  `char` is signed (gcc on x86-64), so a digest byte enters the bucket
  arithmetic sign-extended to the 64 bits of `size_t`.

  `sha1` stands for the hash function of the vendored `SHA1`; its length
  parameter is a `uint32_t`, so a call with `key_size` hashes the first
  `key_size mod 2^32` bytes of the key.
-/
import Cdht.Memory
import Cdht.Strings
import Mathlib.Algebra.Ring.Nat

namespace Cdht.Store

open Cdht.Memory Cdht.Strings

/-! ### Data model -/

abbrev Digest := CharArray 20

/-- `kv_entry_t` without its `next` pointer, which is the list structure of the
    chain.  `data` is the entry's own copy, `data_length` bytes long. -/
structure KvEntry where
  key : Digest
  dataLength : Nat
  data : Bytes
  length_data : data.length = dataLength
deriving DecidableEq

/-- `kv_store_t`: one chain and one lock for each bucket index. -/
@[ext]
structure KvStore where
  buckets : List (List KvEntry)
  bucketLocks : List Mutex
  bucketCount : UInt64
  length_buckets : buckets.length = bucketCount.toNat
  length_bucketLocks : bucketLocks.length = bucketCount.toNat
deriving DecidableEq

/-- `kv_store_new`. -/
def kvStoreNew (bucketCount : UInt64) : KvStore where
  buckets := List.replicate bucketCount.toNat []
  bucketLocks := List.replicate bucketCount.toNat .free
  bucketCount := bucketCount
  length_buckets := List.length_replicate
  length_bucketLocks := List.length_replicate

def kvEntryNew (key : Digest) (data : Bytes) : KvEntry := ⟨key, data.length, data, rfl⟩

theorem KvEntry.readAt_data (entry : KvEntry) :
    readAt entry.data 0 entry.dataLength = .ok entry.data := by
  rw [readAt_eq_ok (by rw [entry.length_data, Nat.zero_add]), slice, List.drop_zero,
    ← entry.length_data, List.take_length]

/-! ### Bucket arithmetic -/

/-- The conversion of a (signed) `char` to `size_t`. -/
def charToSize (char : UInt8) : UInt64 := char.toInt8.toInt64.toUInt64

/-- `sha1_mod_bucket`: the Horner loop over the twenty digest bytes. -/
def sha1ModBucket (hash : Digest) (bucketCount : UInt64) : UInt64 :=
  hash.val.foldl (fun result char => (result * 256 + charToSize char) % bucketCount) 0

theorem foldl_mod_lt (bytes : Bytes) {start bucketCount : UInt64} (hstart : start < bucketCount) :
    bytes.foldl (fun result char => (result * 256 + charToSize char) % bucketCount) start
      < bucketCount := by
  have hpos : 0 < bucketCount := UInt64.lt_of_le_of_lt (UInt64.zero_le) hstart
  induction bytes generalizing start with
  | nil => exact hstart
  | cons byte rest ih => exact ih (UInt64.mod_lt _ hpos)

theorem count_pos_of_one_le {bucketCount : UInt64} (hcount : 1 ≤ bucketCount) :
    0 < bucketCount := by
  rw [UInt64.lt_iff_toNat_lt]
  exact UInt64.le_iff_toNat_le.mp hcount

theorem sha1ModBucket_lt (hash : Digest) {bucketCount : UInt64} (hpos : 0 < bucketCount) :
    sha1ModBucket hash bucketCount < bucketCount :=
  foldl_mod_lt hash.val hpos

/-! ### Buckets and their locks -/

def KvStore.bucket (store : KvStore) (index : Nat) : Exec (List KvEntry) :=
  match store.buckets[index]? with
  | some chain => .ok chain
  | none => .error (.outOfBounds index)

def KvStore.setBucket (store : KvStore) (index : Nat) (chain : List KvEntry) : KvStore :=
  { store with
    buckets := store.buckets.set index chain
    length_buckets := by rw [List.length_set]; exact store.length_buckets }

def KvStore.onLock (store : KvStore) (index : Nat) (operation : Mutex → Exec Mutex) :
    Exec KvStore :=
  match store.bucketLocks[index]? with
  | none => .error (.outOfBounds index)
  | some mutex => do
      let mutex ← operation mutex
      return { store with
        bucketLocks := store.bucketLocks.set index mutex
        length_bucketLocks := by rw [List.length_set]; exact store.length_bucketLocks }

def KvStore.lockBucket (store : KvStore) (index : Nat) : Exec KvStore :=
  store.onLock index (Mutex.lock .normal)

def KvStore.unlockBucket (store : KvStore) (index : Nat) : Exec KvStore :=
  store.onLock index (Mutex.unlock .normal)

/-! ### The operations -/

def putWalk (result : Digest) (data : Bytes) (node : KvEntry) : List KvEntry → List KvEntry
  | [] =>
      if memcmp result.val node.key.val = 0 then [node]  -- duplicated key
      else [node, kvEntryNew result data]
  | next :: rest =>
      if memcmp result.val node.key.val = 0 then node :: next :: rest
      else node :: putWalk result data next rest

def getWalk (result : Digest) (ent : KvEntry) : List KvEntry → Option KvEntry
  | [] => if memcmp ent.key.val result.val = 0 then some ent else none
  | next :: rest =>
      if memcmp ent.key.val result.val = 0 then some ent else getWalk result next rest

section Operations

variable (sha1 : Bytes → Digest)

/-- `SHA1(result, key, key_size)` for a key of `key_size` bytes: the length is
    narrowed to `uint32_t`. -/
def dig (key : Bytes) : Digest := sha1 (key.take (key.length % 2 ^ 32))

def kvStorePut (store : KvStore) (key data : Bytes) : Exec KvStore := do
  let result := dig sha1 key
  let bucketIndex := (sha1ModBucket result store.bucketCount).toNat
  let store ← store.lockBucket bucketIndex
  let chain ← store.bucket bucketIndex
  let store := match chain with
    | [] => store.setBucket bucketIndex [kvEntryNew result data]
    | node :: next => store.setBucket bucketIndex (putWalk result data node next)
  store.unlockBucket bucketIndex

/-- `kv_store_get`: the bytes of `*output` (`none` for `NULL`) and the returned
    length. -/
def kvStoreGet (store : KvStore) (key : Bytes) : Exec ((Option Bytes × Nat) × KvStore) := do
  let result := dig sha1 key
  let bucketIndex := (sha1ModBucket result store.bucketCount).toNat
  let store ← store.lockBucket bucketIndex
  let chain ← store.bucket bucketIndex
  match chain with
  | [] =>
      let store ← store.unlockBucket bucketIndex
      return ((none, 0), store)
  | ent :: next =>
      match getWalk result ent next with
      | some ent =>
          let output ← readAt ent.data 0 ent.dataLength
          let store ← store.unlockBucket bucketIndex
          return ((some output, ent.dataLength), store)
      | none =>
          let store ← store.unlockBucket bucketIndex
          return ((none, 0), store)

end Operations

/-! ### What the walks compute -/

def lookupChain (chain : List KvEntry) (digest : Digest) : Option KvEntry :=
  chain.find? (fun entry => entry.key = digest)

theorem lookupChain_cons_of_ne {node : KvEntry} {digest : Digest} (h : ¬ node.key = digest)
    (next : List KvEntry) : lookupChain (node :: next) digest = lookupChain next digest :=
  List.find?_cons_of_neg (by simpa using h)

theorem memcmp_digest (left right : Digest) : memcmp left.val right.val = 0 ↔ left = right := by
  rw [memcmp_eq_zero_iff (left.property.trans right.property.symm), Subtype.ext_iff]

/-- **The get walk is a first-match lookup.** -/
theorem getWalk_eq_lookup (result : Digest) (ent : KvEntry) (next : List KvEntry) :
    getWalk result ent next = lookupChain (ent :: next) result := by
  induction next generalizing ent with
  | nil =>
    by_cases hkey : ent.key = result
    · simp [getWalk, lookupChain, memcmp_digest, hkey]
    · simp [getWalk, lookupChain, memcmp_digest, hkey]
  | cons other rest ih =>
    by_cases hkey : ent.key = result
    · simp [getWalk, lookupChain, memcmp_digest, hkey]
    · rw [getWalk, if_neg (by rwa [memcmp_digest]), ih, lookupChain_cons_of_ne hkey]

/-- The chain after a put: unchanged if the digest is there, extended at the end
    if it is not. -/
def putChain (chain : List KvEntry) (result : Digest) (data : Bytes) : List KvEntry :=
  if (lookupChain chain result).isSome then chain else chain ++ [kvEntryNew result data]

/-- **The put walk appends, and only where the digest is absent.** -/
theorem putWalk_eq_putChain (result : Digest) (data : Bytes) (node : KvEntry)
    (next : List KvEntry) : putWalk result data node next = putChain (node :: next) result data := by
  induction next generalizing node with
  | nil =>
    by_cases hkey : node.key = result
    · simp [putWalk, putChain, lookupChain, memcmp_digest, hkey]
    · have hkey' : ¬ result = node.key := fun h => hkey h.symm
      simp [putWalk, putChain, lookupChain, memcmp_digest, hkey, hkey']
  | cons other rest ih =>
    by_cases hkey : node.key = result
    · simp [putWalk, putChain, lookupChain, memcmp_digest, hkey]
    · have hkey' : ¬ result = node.key := fun h => hkey h.symm
      rw [putWalk, if_neg (by rwa [memcmp_digest]), ih, putChain, putChain,
        lookupChain_cons_of_ne hkey]
      split
      · rfl
      · rfl

/-! ### What the operations compute -/

/-- The store as a caller may use it: at least one bucket, and no lock held. -/
structure KvStore.Ready (store : KvStore) : Prop where
  count_pos : 0 < store.bucketCount
  locks_free : ∀ mutex ∈ store.bucketLocks, mutex = .free

def KvStore.indexOf (store : KvStore) (digest : Digest) : Nat :=
  (sha1ModBucket digest store.bucketCount).toNat

def KvStore.chainOf (store : KvStore) (digest : Digest) : List KvEntry :=
  store.buckets.getD (store.indexOf digest) []

theorem kvStoreNew_ready {bucketCount : UInt64} (hpos : 0 < bucketCount) :
    (kvStoreNew bucketCount).Ready :=
  ⟨hpos, fun _ hmutex => (List.mem_replicate.mp hmutex).2⟩

namespace KvStore.Ready

variable {store : KvStore} (hready : store.Ready)

include hready

theorem indexOf_lt (digest : Digest) : store.indexOf digest < store.bucketCount.toNat :=
  UInt64.lt_iff_toNat_lt.mp (sha1ModBucket_lt digest hready.count_pos)

theorem bucket_indexOf (digest : Digest) :
    store.bucket (store.indexOf digest) = .ok (store.chainOf digest) := by
  have hindex : store.indexOf digest < store.buckets.length :=
    store.length_buckets ▸ hready.indexOf_lt digest
  simp only [KvStore.bucket, KvStore.chainOf, List.getElem?_eq_getElem hindex, List.getD,
    Option.getD_some]

/-- **One critical section.**  Locking the bucket of a digest succeeds, changes no
    chain, and the matching unlock gives back a store with every lock free. -/
theorem lockBucket (digest : Digest) :
    ∃ locked, store.lockBucket (store.indexOf digest) = .ok locked ∧
      locked.buckets = store.buckets ∧ locked.bucketCount = store.bucketCount ∧
      locked.unlockBucket (store.indexOf digest) = .ok store ∧
      ∀ chain, (locked.setBucket (store.indexOf digest) chain).unlockBucket
        (store.indexOf digest) = .ok (store.setBucket (store.indexOf digest) chain) := by
  have hindex : store.indexOf digest < store.bucketLocks.length :=
    store.length_bucketLocks ▸ hready.indexOf_lt digest
  have hfree : store.bucketLocks[store.indexOf digest]? = some .free := by
    rw [List.getElem?_eq_getElem hindex, hready.locks_free _ (List.getElem_mem hindex)]
  have hrestore : (store.bucketLocks.set (store.indexOf digest) .held).set
      (store.indexOf digest) .free = store.bucketLocks := by
    rw [List.set_set, ← Option.some.inj ((List.getElem?_eq_getElem hindex).symm.trans hfree),
      List.set_getElem_self]
  have hheld : (store.bucketLocks.set (store.indexOf digest) .held)[store.indexOf digest]? =
      some .held := by
    rw [List.getElem?_set_self hindex]
  refine ⟨{ store with
    bucketLocks := store.bucketLocks.set (store.indexOf digest) .held
    length_bucketLocks := by rw [List.length_set]; exact store.length_bucketLocks },
    ?_, rfl, rfl, ?_, ?_⟩
  · simp only [KvStore.lockBucket, KvStore.onLock, hfree, Mutex.lock, ok_bind, pure_eq_ok]
  · simp only [KvStore.unlockBucket, KvStore.onLock, hheld, Mutex.unlock, ok_bind, pure_eq_ok,
      hrestore]
  · intro chain
    simp only [KvStore.unlockBucket, KvStore.onLock, KvStore.setBucket, hheld, Mutex.unlock,
      ok_bind, pure_eq_ok, hrestore]

/-- **`kv_store_put`** replaces one chain by what the walk leaves behind. -/
theorem kvStorePut_eq (sha1 : Bytes → Digest) (key data : Bytes) :
    kvStorePut sha1 store key data =
      .ok (store.setBucket (store.indexOf (dig sha1 key))
        (putChain (store.chainOf (dig sha1 key)) (dig sha1 key) data)) := by
  obtain ⟨locked, hlock, hbuckets, -, -, hunlock⟩ := hready.lockBucket (dig sha1 key)
  have hbucket : locked.bucket (store.indexOf (dig sha1 key)) =
      .ok (store.chainOf (dig sha1 key)) := by
    rw [← hready.bucket_indexOf, KvStore.bucket, KvStore.bucket, hbuckets]
  have hindex : (sha1ModBucket (dig sha1 key) store.bucketCount).toNat =
      store.indexOf (dig sha1 key) := rfl
  simp only [kvStorePut, hindex, hlock, hbucket, ok_bind]
  rcases hchain : store.chainOf (dig sha1 key) with _ | ⟨node, next⟩
  · simp only [hunlock, putChain, lookupChain, List.find?_nil, Option.isSome_none,
      Bool.false_eq_true, if_false, List.nil_append]
  · simp only [hunlock, putWalk_eq_putChain]

/-- **`kv_store_get`** answers with the entry of the chain that carries the digest,
    and leaves the store as it is. -/
theorem kvStoreGet_eq (sha1 : Bytes → Digest) (key : Bytes) :
    kvStoreGet sha1 store key =
      .ok (match lookupChain (store.chainOf (dig sha1 key)) (dig sha1 key) with
        | some entry => ((some entry.data, entry.data.length), store)
        | none => ((none, 0), store)) := by
  obtain ⟨locked, hlock, hbuckets, -, hunlock, -⟩ := hready.lockBucket (dig sha1 key)
  have hbucket : locked.bucket (store.indexOf (dig sha1 key)) =
      .ok (store.chainOf (dig sha1 key)) := by
    rw [← hready.bucket_indexOf, KvStore.bucket, KvStore.bucket, hbuckets]
  have hindex : (sha1ModBucket (dig sha1 key) store.bucketCount).toNat =
      store.indexOf (dig sha1 key) := rfl
  simp only [kvStoreGet, hindex, hlock, hbucket, ok_bind]
  rcases hchain : store.chainOf (dig sha1 key) with _ | ⟨ent, next⟩
  · simp only [hunlock, ok_bind, pure_eq_ok, lookupChain, List.find?_nil]
  · rw [← getWalk_eq_lookup]
    rcases hwalk : getWalk (dig sha1 key) ent next with _ | entry
    · simp only [hwalk, hunlock, ok_bind, pure_eq_ok]
    · simp only [hwalk, entry.readAt_data, hunlock, ok_bind, pure_eq_ok, entry.length_data]

end KvStore.Ready

end Cdht.Store
