/-
  Cdht/StoreRefinement.lean
  =========================
  **The store is a first-write-wins map on digests.**

  A run is any sequence of `kv_store_put` and `kv_store_get` calls on a store
  made by `kv_store_new`.  Whatever digests collide and whatever buckets they
  share, the store answers as the map of `FirstWriteMap` does: the relation
  `Represents` says that looking a digest up in its own chain gives the map's
  value, each call keeps it (`storeStep_refines`), and the simulation rule of
  `Machine` carries it over whole runs.

  The relation speaks about the one chain of each digest only.  That is enough:
  a put appends to the chain of its own digest, so in every other chain nothing
  changes, and in that chain only the new entry can match a lookup that failed
  before.
-/
import Cdht.FirstWriteMap
import Cdht.Machine
import Cdht.Store

namespace Cdht.StoreRefinement

open Cdht.Memory Cdht.Machine Cdht.Store Cdht.FirstWriteMap

/-! ### Runs of the store -/

/-- A call on the store.  `key_size` and `data_length` are the lengths. -/
inductive StoreOp where
  | put (key data : Bytes)
  | get (key : Bytes)
deriving DecidableEq, Repr

inductive StoreReply where
  | stored
  | answered (output : Option Bytes) (length : Nat)
deriving DecidableEq, Repr

def StoreReply.ofValue : Option Bytes → StoreReply
  | some data => .answered (some data) data.length
  | none => .answered none 0

section Runs

variable (sha1 : Bytes → Digest)

def storeStep : Step KvStore StoreOp StoreReply
  | store, .put key data => do
      let store ← kvStorePut sha1 store key data
      return (.stored, store)
  | store, .get key => do
      let ((output, length), store) ← kvStoreGet sha1 store key
      return (.answered output length, store)

def mapStep : AStep (FMap Digest Bytes) StoreOp StoreReply
  | map, .put key data => (.stored, write map (dig sha1 key) data)
  | map, .get key => (.ofValue (map (dig sha1 key)), map)

def writesOf (ops : List StoreOp) : List (Digest × Bytes) :=
  ops.filterMap fun
    | .put key data => some (dig sha1 key, data)
    | .get _ => none

def earliestPut (ops : List StoreOp) (digest : Digest) : Option Bytes :=
  earliest (writesOf sha1 ops) digest

/-! ### The simulation -/

/-- The store represents a map: each digest is found in its chain with the map's
    value, and the store can be used. -/
structure Represents (store : KvStore) (map : FMap Digest Bytes) : Prop where
  ready : store.Ready
  lookup : ∀ digest, (lookupChain (store.chainOf digest) digest).map KvEntry.data = map digest

theorem represents_new {bucketCount : UInt64} (hpos : 0 < bucketCount) :
    Represents (kvStoreNew bucketCount) empty := by
  refine ⟨kvStoreNew_ready hpos, ?_⟩
  intro digest
  have hchain : (kvStoreNew bucketCount).chainOf digest = [] := by
    simp [KvStore.chainOf, kvStoreNew, List.getD, List.getElem?_replicate]
    split
    · rfl
    · rfl
  rw [hchain]
  rfl

theorem lookupChain_putChain (chain : List KvEntry) (digest other : Digest) (data : Bytes) :
    (lookupChain (putChain chain digest data) other).map KvEntry.data =
      ((lookupChain chain other).map KvEntry.data).or
        (if other = digest then some data else none) := by
  rw [putChain]
  split
  · rename_i hfound
    by_cases hother : other = digest
    · subst hother
      obtain ⟨entry, hentry⟩ := Option.isSome_iff_exists.mp hfound
      simp [hentry]
    · simp [hother]
  · have hnew : (lookupChain [kvEntryNew digest data] other).map KvEntry.data =
        if other = digest then some data else none := by
      by_cases hother : other = digest
      · simp [lookupChain, kvEntryNew, hother]
      · have hother' : ¬ digest = other := fun h => hother h.symm
        simp [lookupChain, kvEntryNew, hother, hother']
    rw [lookupChain, List.find?_append, Option.map_or, ← hnew]
    rfl

theorem chainOf_setBucket {store : KvStore} (hready : store.Ready) (digest other : Digest)
    (chain : List KvEntry) :
    (store.setBucket (store.indexOf digest) chain).chainOf other =
      if store.indexOf other = store.indexOf digest then chain else store.chainOf other := by
  have hindex : store.indexOf digest < store.buckets.length :=
    store.length_buckets ▸ hready.indexOf_lt digest
  have hsame : (store.setBucket (store.indexOf digest) chain).indexOf other =
      store.indexOf other := rfl
  rw [KvStore.chainOf, hsame, KvStore.setBucket]
  by_cases hother : store.indexOf other = store.indexOf digest
  · simp [hother, List.getD, List.getElem?_set_self hindex]
  · have hother' : store.indexOf digest ≠ store.indexOf other := fun h => hother h.symm
    simp [hother, KvStore.chainOf, List.getD, List.getElem?_set_ne hother']

/-- **A put on the store is a write to the map.** -/
theorem represents_put {store : KvStore} {map : FMap Digest Bytes} (h : Represents store map)
    (digest : Digest) (data : Bytes) :
    Represents (store.setBucket (store.indexOf digest)
      (putChain (store.chainOf digest) digest data)) (write map digest data) := by
  refine ⟨⟨h.ready.count_pos, h.ready.locks_free⟩, ?_⟩
  intro other
  rw [chainOf_setBucket h.ready, write_apply, ← h.lookup other]
  by_cases hindex : store.indexOf other = store.indexOf digest
  · have hchain : store.chainOf other = store.chainOf digest := by
      rw [KvStore.chainOf, hindex, KvStore.chainOf]
    rw [if_pos hindex, lookupChain_putChain, hchain]
  · have hother : other ≠ digest := fun heq => hindex (by rw [heq])
    rw [if_neg hindex, if_neg hother, Option.or_none]

/-- **One call refines one call.** -/
theorem storeStep_refines (store : KvStore) (map : FMap Digest Bytes) (op : StoreOp)
    (h : Represents store map) :
    ∃ store', storeStep sha1 store op = .ok ((mapStep sha1 map op).1, store') ∧
      Represents store' (mapStep sha1 map op).2 := by
  cases op with
  | put key data =>
    refine ⟨_, ?_, represents_put h (dig sha1 key) data⟩
    simp only [storeStep, mapStep, h.ready.kvStorePut_eq, ok_bind, pure_eq_ok]
  | get key =>
    refine ⟨store, ?_, h⟩
    simp only [storeStep, mapStep, h.ready.kvStoreGet_eq, ok_bind, pure_eq_ok]
    rw [← h.lookup (dig sha1 key)]
    rcases lookupChain (store.chainOf (dig sha1 key)) (dig sha1 key) with _ | entry
    · rfl
    · rfl

theorem run_store {bucketCount : UInt64} (hpos : 0 < bucketCount) (ops : List StoreOp) :
    ∃ store, run (storeStep sha1) (kvStoreNew bucketCount) ops =
      .ok ((arun (mapStep sha1) empty ops).1, store) := by
  obtain ⟨store, hrun, -⟩ := run_refines (storeStep sha1) (mapStep sha1) Represents (fun _ => True)
    (fun store map op h _ => storeStep_refines sha1 store map op h)
    ops (kvStoreNew bucketCount) empty (represents_new hpos) (fun _ _ => trivial)
  exact ⟨store, hrun⟩

/-! ### The map after a run is its history -/

theorem arun_mapStep_state (ops : List StoreOp) (digest : Digest) :
    (arun (mapStep sha1) empty ops).2 digest = earliestPut sha1 ops digest := by
  have hwrites : ∀ map, ops.foldl (fun map op => (mapStep sha1 map op).2) map =
      (writesOf sha1 ops).foldl (fun map write => FirstWriteMap.write map write.1 write.2) map := by
    induction ops with
    | nil => intro map; rfl
    | cons op ops ih =>
      intro map
      cases op with
      | put key data => exact ih (write map (dig sha1 key) data)
      | get key => exact ih map
  rw [arun_state, hwrites, foldl_write]
  rfl

theorem earliestPut_eq_none_iff {ops : List StoreOp} {digest : Digest} :
    earliestPut sha1 ops digest = none ↔
      ∀ key data, StoreOp.put key data ∈ ops → dig sha1 key ≠ digest := by
  rw [earliestPut, earliest_eq_none_iff]
  constructor
  · intro h key data hput
    exact h (dig sha1 key, data) (List.mem_filterMap.mpr ⟨.put key data, hput, rfl⟩)
  · intro h write hwrite
    obtain ⟨op, hop, hwrite⟩ := List.mem_filterMap.mp hwrite
    cases op with
    | put key data =>
      obtain rfl := Option.some.inj hwrite
      exact h key data hop
    | get key => cases hwrite

theorem earliestPut_take {ops : List StoreOp} {i j : Nat} (hij : i ≤ j) (digest : Digest) :
    earliestPut sha1 (ops.take j) digest =
      (earliestPut sha1 (ops.take i) digest).or
        (earliestPut sha1 ((ops.take j).drop i) digest) := by
  have hsplit : ops.take i ++ (ops.take j).drop i = ops.take j := by
    have htake : (ops.take j).take i = ops.take i := by
      rw [List.take_take, Nat.min_eq_left hij]
    rw [← htake, List.take_append_drop]
  rw [earliestPut, ← hsplit, writesOf, List.filterMap_append, earliest_append, hsplit]
  rfl

/-- **The store refines a first-write-wins map.**  For every number of buckets and
    every sequence of calls, with any collisions among digests and buckets: the run
    does not fault; each get answers the data and the length of the earliest put of
    its digest before it, and `NULL` with length 0 exactly when there is none; and of
    two gets of one digest the later one answers the same, unless the earlier one
    found nothing and a put of that digest came in between. -/
theorem store_run_first_write_wins (bucketCount : UInt64) (hcount : 1 ≤ bucketCount)
    (ops : List StoreOp) :
    ∃ replies store, run (storeStep sha1) (kvStoreNew bucketCount) ops = .ok (replies, store) ∧
      (∀ position key, ops[position]? = some (.get key) →
        replies[position]? =
          some (.ofValue (earliestPut sha1 (ops.take position) (dig sha1 key))) ∧
        (replies[position]? = some (.answered none 0) ↔
          ∀ other data, StoreOp.put other data ∈ ops.take position →
            dig sha1 other ≠ dig sha1 key)) ∧
      (∀ i j key key', i ≤ j → ops[i]? = some (.get key) → ops[j]? = some (.get key') →
        dig sha1 key' = dig sha1 key →
        (replies[i]? ≠ some (.answered none 0) ∨
          ∀ other data, StoreOp.put other data ∈ (ops.take j).drop i →
            dig sha1 other ≠ dig sha1 key) →
        replies[j]? = replies[i]?) := by
  have hpos := count_pos_of_one_le hcount
  obtain ⟨store, hrun⟩ := run_store sha1 hpos ops
  have hreply : ∀ position key, ops[position]? = some (StoreOp.get key) →
      (arun (mapStep sha1) empty ops).1[position]? =
        some (StoreReply.ofValue (earliestPut sha1 (ops.take position) (dig sha1 key))) := by
    intro position key hget
    rw [arun_output, hget, Option.map_some, ← arun_mapStep_state]
    rfl
  refine ⟨_, store, hrun, ?_, ?_⟩
  · intro position key hget
    refine ⟨hreply position key hget, ?_⟩
    rw [hreply position key hget, ← earliestPut_eq_none_iff]
    rcases earliestPut sha1 (ops.take position) (dig sha1 key) with _ | data
    · simp [StoreReply.ofValue]
    · simp [StoreReply.ofValue]
  · intro i j key key' hij hi hj hdigest hquiet
    rw [hreply j key' hj, hreply i key hi, hdigest, earliestPut_take sha1 hij]
    rcases hfound : earliestPut sha1 (ops.take i) (dig sha1 key) with _ | data
    · rcases hquiet with hanswer | hnone
      · rw [hreply i key hi, hfound] at hanswer
        exact absurd rfl hanswer
      · rw [(earliestPut_eq_none_iff sha1).mpr hnone, Option.or_none]
    · rw [Option.some_or]

end Runs

/-- The digest of `"abc"`, the first test vector of FIPS PUB 180-1. -/
def digestOfAbc : Digest :=
  ⟨[0xA9, 0x99, 0x3E, 0x36, 0x47, 0x06, 0x81, 0x6A, 0xBA, 0x3E,
    0x25, 0x71, 0x78, 0x50, 0xC2, 0x6C, 0x9C, 0xD0, 0xD8, 0x9D], rfl⟩

theorem store_run_first_write_wins_abc :
    ∃ replies store, run (storeStep fun _ => digestOfAbc) (kvStoreNew 1024)
        [.put [97, 98, 99] [1, 2], .put [97, 98, 99] [3], .get [97, 98, 99]] =
          .ok (replies, store) ∧
      replies[2]? = some (.answered (some [1, 2]) 2) := by
  obtain ⟨replies, store, hrun, hgets, -⟩ :=
    store_run_first_write_wins (fun _ => digestOfAbc) 1024 (by decide)
      [.put [97, 98, 99] [1, 2], .put [97, 98, 99] [3], .get [97, 98, 99]]
  refine ⟨replies, store, hrun, ?_⟩
  rw [(hgets 2 [97, 98, 99] rfl).1]
  decide

end Cdht.StoreRefinement
