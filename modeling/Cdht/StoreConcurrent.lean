/-
  Cdht/StoreConcurrent.lean
  =========================
  **The store under concurrent calls** (`src/database/store.c`).

  Any number of threads call `kv_store_put` and `kv_store_get`.  A call is a sequence
  of small steps on the shared memory: lock the bucket, read its head, compare the key
  of one entry and go on to the next, create and link an entry, copy data out,
  unlock, and, after the unlock, read `ent->data_length` for the result of a get.
  Between any two steps of a thread any other thread may move.  A thread that waits
  for a lock, or an allocation that would return an address in use, changes nothing.

  Here the entries are cells of a heap with `next` pointers, and a dangling pointer
  would be a fault.  `StoreSimulation.lean` relates them to the chains of
  `Store.lean`.
-/
import Cdht.LinkedCells
import Cdht.Linearizability
import Cdht.StoreInvariant

namespace Cdht.StoreConcurrent

open Cdht.Memory Cdht.Machine Cdht.Strings Cdht.Store Cdht.StoreRefinement Cdht.LinkedCells
open Cdht.Linearizability

variable {T : Type}

/-! ### Where a thread stands -/

/-- The next step of a `kv_store_put`. -/
inductive PutStage where
  | lock
  | head
  | create                     -- the bucket is empty
  | compare (node : Address)
  | append (node : Address)    -- `node->next` is NULL
  | unlock
  | finish

/-- The next step of a `kv_store_get`. -/
inductive GetStage where
  | lock
  | head
  | compare (ent : Address)
  | copy (ent : Address)
  | unlock (found : Option (Address × Bytes))
  | length (ent : Address) (output : Bytes)
  | finish (output : Option Bytes) (length : Nat)

inductive Thread where
  | idle
  | putting (key data : Bytes) (stage : PutStage)
  | getting (key : Bytes) (stage : GetStage)

/-- `kv_store_t` in shared memory, with the holder of each lock, and the threads. -/
structure SharedStore (T : Type) where
  heap : Heap KvEntry
  buckets : Nat → Option Address
  bucketLocks : Nat → Option T
  bucketCount : UInt64
  threads : T → Thread

def SharedStore.new (bucketCount : UInt64) : SharedStore T :=
  ⟨fun _ => none, fun _ => none, fun _ => none, bucketCount, fun _ => .idle⟩

def SharedStore.indexOf (store : SharedStore T) (digest : Digest) : Nat :=
  (sha1ModBucket digest store.bucketCount).toNat

/-! ### The steps -/

section Steps

variable [DecidableEq T]

def SharedStore.setThread (store : SharedStore T) (thread : T) (state : Thread) : SharedStore T :=
  { store with threads := Function.update store.threads thread state }

def SharedStore.readBucket (store : SharedStore T) (index : Nat) : Exec (Option Address) :=
  if index < store.bucketCount.toNat then .ok (store.buckets index)
  else .error (.outOfBounds index)

/-- `pthread_mutex_lock`; `none` while somebody holds the lock. -/
def SharedStore.lockBucket (store : SharedStore T) (thread : T) (index : Nat) :
    Exec (Option (SharedStore T)) :=
  if index < store.bucketCount.toNat then
    match store.bucketLocks index with
    | none =>
        .ok (some { store with
          bucketLocks := Function.update store.bucketLocks index (some thread) })
    | some _ => .ok none
  else .error (.outOfBounds index)

def SharedStore.unlockBucket (store : SharedStore T) (thread : T) (index : Nat) :
    Exec (SharedStore T) :=
  if store.bucketLocks index = some thread then
    .ok { store with bucketLocks := Function.update store.bucketLocks index none }
  else .error .unlockOfFree

abbrev Seen (T : Type) := Option (Event T StoreOp StoreReply)

variable (sha1 : Bytes → Digest)

/-- One step of `kv_store_put` in `thread`; `address` is what `malloc` returns if the
    step allocates. -/
def putStep (store : SharedStore T) (thread : T) (address : Address) (key data : Bytes)
    (stage : PutStage) : Exec (Seen T × SharedStore T) :=
  let result := dig sha1 key
  let bucketIndex := store.indexOf result
  let goTo (store : SharedStore T) (stage : PutStage) :=
    store.setThread thread (.putting key data stage)
  match stage with
  | .lock => do
      match ← store.lockBucket thread bucketIndex with
      | none => return (none, store)
      | some store => return (none, goTo store .head)
  | .head => do
      match ← store.readBucket bucketIndex with
      | none => return (none, goTo store .create)
      | some node => return (none, goTo store (.compare node))
  | .create =>
      match store.heap address with
      | some _ => .ok (none, store)
      | none =>
          let heap := placeCell store.heap address ⟨kvEntryNew result data, none⟩
          let buckets := Function.update store.buckets bucketIndex (some address)
          .ok (none, goTo { store with heap := heap, buckets := buckets } .unlock)
  | .compare node => do
      let cell ← loadCell store.heap node
      if memcmp result.val cell.data.key.val = 0 then  -- duplicated key
        return (none, goTo store .unlock)
      else
        match cell.next with
        | none => return (none, goTo store (.append node))
        | some next => return (none, goTo store (.compare next))
  | .append node =>
      match store.heap address with
      | some _ => .ok (none, store)
      | none => do
          let heap := placeCell store.heap address ⟨kvEntryNew result data, none⟩
          let heap ← storeNext heap node (some address)
          return (none, goTo { store with heap := heap } .unlock)
  | .unlock => do
      let store ← store.unlockBucket thread bucketIndex
      return (none, goTo store .finish)
  | .finish => .ok (some (.ret thread .stored), store.setThread thread .idle)

/-- One step of `kv_store_get` in `thread`. -/
def getStep (store : SharedStore T) (thread : T) (key : Bytes) (stage : GetStage) :
    Exec (Seen T × SharedStore T) :=
  let result := dig sha1 key
  let bucketIndex := store.indexOf result
  let goTo (store : SharedStore T) (stage : GetStage) :=
    store.setThread thread (.getting key stage)
  match stage with
  | .lock => do
      match ← store.lockBucket thread bucketIndex with
      | none => return (none, store)
      | some store => return (none, goTo store .head)
  | .head => do
      match ← store.readBucket bucketIndex with
      | none => return (none, goTo store (.unlock none))
      | some ent => return (none, goTo store (.compare ent))
  | .compare ent => do
      let cell ← loadCell store.heap ent
      if memcmp cell.data.key.val result.val = 0 then
        return (none, goTo store (.copy ent))
      else
        match cell.next with
        | none => return (none, goTo store (.unlock none))
        | some next => return (none, goTo store (.compare next))
  | .copy ent => do
      let cell ← loadCell store.heap ent
      let output ← readAt cell.data.data 0 cell.data.dataLength
      return (none, goTo store (.unlock (some (ent, output))))
  | .unlock found => do
      let store ← store.unlockBucket thread bucketIndex
      match found with
      | none => return (none, goTo store (.finish none 0))
      | some (ent, output) => return (none, goTo store (.length ent output))
  | .length ent output => do
      let cell ← loadCell store.heap ent
      return (none, goTo store (.finish (some output) cell.data.dataLength))
  | .finish output length =>
      .ok (some (.ret thread (.answered output length)), store.setThread thread .idle)

inductive Move (T : Type) where
  | call (thread : T) (op : StoreOp)
  | act (thread : T) (address : Address)

/-- A thread that is not in a call may make any call; a thread in a call may take its
    next step. -/
def sharedStep : Step (SharedStore T) (Move T) (Seen T)
  | store, .call thread op =>
      match store.threads thread, op with
      | .idle, .put key data =>
          .ok (some (.call thread op), store.setThread thread (.putting key data .lock))
      | .idle, .get key =>
          .ok (some (.call thread op), store.setThread thread (.getting key .lock))
      | _, _ => .ok (none, store)
  | store, .act thread address =>
      match store.threads thread with
      | .idle => .ok (none, store)
      | .putting key data stage => putStep sha1 store thread address key data stage
      | .getting key stage => getStep sha1 store thread key stage

end Steps

end Cdht.StoreConcurrent
