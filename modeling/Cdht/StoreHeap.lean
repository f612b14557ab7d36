/-
  Cdht/StoreHeap.lean
  ===================
  **The key-value store with its memory** (`src/database/store.c`).

  The operations of `Store.lean` with everything they allocate: entries on one heap,
  blocks of bytes on another, a bucket as the pointer to its first entry.  A put copies
  the caller's bytes into a block of the new entry, a get copies them out into a block
  that the caller owns from then on, and `kv_store_destroy` frees the entries and their
  blocks.  Keys are hashed by the `SHA1` of `Sha1.lean`.  The addresses that `malloc`
  returns are arguments; it is taken to succeed, as the source takes it.  The operations
  are written for the time in which they hold the lock of their bucket, and a loop gets a
  number of rounds.

  Callers may write to the copies they have and free them.  Whatever they do with them,
  the store answers as the chains of `Store.lean` do, nothing is freed twice, and after
  `kv_store_destroy` there is nothing left but the copies (`heap_refines_store`).  A copy
  stays as it is as long as its owner leaves it alone (`copy_outlives_store`).
-/
import Cdht.ChainWalk
import Cdht.Sha1Stream
import Cdht.StoreRefinement

namespace Cdht.StoreHeap

open Cdht.Memory Cdht.Machine Cdht.LinkedCells Cdht.ChainWalk Cdht.Strings
open Cdht.Store (Digest KvEntry KvStore sha1ModBucket lookupChain putChain dig)
open Cdht.StoreRefinement (StoreOp StoreReply storeStep)

/-! ### Blocks of bytes -/

abbrev Blocks := Address → Option Bytes

def loadBlock (blocks : Blocks) (address : Address) : Exec Bytes :=
  match blocks address with
  | some bytes => .ok bytes
  | none => .error (.outOfBounds address)

def placeBlock (blocks : Blocks) (address : Address) (bytes : Bytes) : Blocks :=
  Function.update blocks address (some bytes)

/-- `free`: giving back what is not there is a fault. -/
def freeBlock (blocks : Blocks) (address : Address) : Exec Blocks := do
  let _ ← loadBlock blocks address
  return Function.update blocks address none

/-! ### The functions of the source -/

/-- `kv_entry_t` without its `next` pointer. -/
structure Entry where
  key : Digest
  dataLength : Nat
  data : Address
deriving DecidableEq

/-- `kv_store_t` and the memory it lives in.  `held` are the copies that callers have got
    and not freed. -/
structure HeapStore where
  entries : Heap Entry
  blocks : Blocks
  buckets : List (Option Address)
  bucketCount : UInt64
  held : List Address

def kvStoreNew (bucketCount : UInt64) : HeapStore :=
  ⟨fun _ => none, fun _ => none, List.replicate bucketCount.toNat none, bucketCount, []⟩

def HeapStore.bucket (store : HeapStore) (index : Nat) : Exec (Option Address) :=
  match store.buckets[index]? with
  | some head => .ok head
  | none => .error (.outOfBounds index)

/-- `kv_entry_new`, where `output` and `block` are what `malloc` returns. -/
def kvEntryNew (store : HeapStore) (output block : Address) (key : Digest) (data : Bytes)
    (next : Option Address) : HeapStore :=
  { store with
    entries := placeCell store.entries output ⟨⟨key, data.length, block⟩, next⟩
    blocks := placeBlock store.blocks block data }

def putWalk (result : Digest) (data : Bytes) (entry block : Address) :
    (rounds : Nat) → (node : Address) → HeapStore → Exec (Option HeapStore)
  | 0, _, _ => .ok none
  | rounds + 1, node, store => do
      let cell ← loadCell store.entries node
      if memcmp result.val cell.data.key.val = 0 then return some store  -- duplicated key
      else
        match cell.next with
        | none =>
            let store := kvEntryNew store entry block result data none
            let entries ← storeNext store.entries node (some entry)
            return some { store with entries := entries }
        | some next => putWalk result data entry block rounds next store

def kvStorePut (rounds : Nat) (entry block : Address) (store : HeapStore) (key data : Bytes) :
    Exec (Option HeapStore) := do
  let result ← Sha1.sha1 key (UInt32.ofNat key.length)
  let bucketIndex := (sha1ModBucket result store.bucketCount).toNat
  match ← store.bucket bucketIndex with
  | none =>
      let store := kvEntryNew store entry block result data none
      return some { store with buckets := store.buckets.set bucketIndex (some entry) }
  | some node => putWalk result data entry block rounds node store

def getWalk (result : Digest) (entries : Heap Entry) :
    (rounds : Nat) → (ent : Address) → Exec (Option (Option Entry))
  | 0, _ => .ok none
  | rounds + 1, ent => do
      let cell ← loadCell entries ent
      if memcmp cell.data.key.val result.val = 0 then return some (some cell.data)
      else
        match cell.next with
        | none => return some none
        | some next => getWalk result entries rounds next

/-- `kv_store_get`, where `output` is what `malloc` returns: the pointer in `*output`, the
    returned length and the store. -/
def kvStoreGet (rounds : Nat) (output : Address) (store : HeapStore) (key : Bytes) :
    Exec (Option ((Option Address × Nat) × HeapStore)) := do
  let result ← Sha1.sha1 key (UInt32.ofNat key.length)
  let bucketIndex := (sha1ModBucket result store.bucketCount).toNat
  match ← store.bucket bucketIndex with
  | none => return some ((none, 0), store)
  | some ent =>
      match ← getWalk result store.entries rounds ent with
      | none => return none
      | some none => return some ((none, 0), store)
      | some (some ent) =>
          let data ← loadBlock store.blocks ent.data
          let copy ← readAt data 0 ent.dataLength
          return some ((some output, ent.dataLength),
            { store with blocks := placeBlock store.blocks output copy, held := output :: store.held })

def kvEntryDestroy (store : HeapStore) (entry : Address) : Exec HeapStore := do
  let cell ← loadCell store.entries entry
  let blocks ← freeBlock store.blocks cell.data.data
  let entries ← release store.entries entry
  return { store with entries := entries, blocks := blocks }

/-- The inner loop of `kv_store_destroy`. -/
def destroyChain : (rounds : Nat) → (e : Option Address) → HeapStore → Exec (Option HeapStore)
  | _, none, store => .ok (some store)
  | 0, some _, _ => .ok none
  | rounds + 1, some p, store => do
      let cell ← loadCell store.entries p
      let store ← kvEntryDestroy store p
      destroyChain rounds cell.next store

def destroyBuckets (rounds : Nat) : List (Option Address) → HeapStore → Exec (Option HeapStore)
  | [], store => .ok (some store)
  | e :: buckets, store => do
      match ← destroyChain rounds e store with
      | none => return none
      | some store => destroyBuckets rounds buckets store

def kvStoreDestroy (rounds : Nat) (store : HeapStore) : Exec (Option HeapStore) :=
  destroyBuckets rounds store.buckets store

/-! ### Calls, and what callers do with their copies -/

inductive HeapOp where
  | put (entry block : Address) (key data : Bytes)
  | get (output : Address) (key : Bytes)
  | overwrite (copy : Address) (bytes : Bytes)
  | free (copy : Address)

/-- The answer to a call.  For a get, `bytes` is what `*output` points to. -/
inductive HeapReply where
  | stored
  | answered (output : Option Address) (bytes : Option Bytes) (length : Nat)
  | done
deriving DecidableEq

/-- One call, or one move of a caller; it answers `none` if a loop has not ended. -/
def heapStep (rounds : Nat) : Step HeapStore HeapOp (Option HeapReply)
  | store, .put entry block key data => do
      match ← kvStorePut rounds entry block store key data with
      | none => return (none, store)
      | some store => return (some .stored, store)
  | store, .get output key => do
      match ← kvStoreGet rounds output store key with
      | none => return (none, store)
      | some ((output, length), store) =>
          return (some (.answered output (output.bind store.blocks) length), store)
  | store, .overwrite copy bytes => do
      let old ← loadBlock store.blocks copy
      let new ← writeAt old 0 bytes
      return (some .done, { store with blocks := placeBlock store.blocks copy new })
  | store, .free copy => do
      let blocks ← freeBlock store.blocks copy
      return (some .done, { store with blocks := blocks, held := store.held.erase copy })

/-- `malloc` returns what is not in use, and callers use their own copies within their
    bounds. -/
def Admissible (store : HeapStore) : HeapOp → Prop
  | .put entry block _ _ => store.entries entry = none ∧ store.blocks block = none
  | .get output _ => store.blocks output = none
  | .overwrite copy bytes =>
      copy ∈ store.held ∧ ∀ old, store.blocks copy = some old → bytes.length ≤ old.length
  | .free copy => copy ∈ store.held

/-- A caller does something with the copy. -/
def HeapOp.touches : HeapOp → Address → Bool
  | .overwrite copy _, address => copy = address
  | .free copy, address => copy = address
  | _, _ => false

/-- The same call on the store of `Store.lean`, which has no copies. -/
def HeapOp.onList : HeapOp → Option StoreOp
  | .put _ _ key data => some (.put key data)
  | .get _ key => some (.get key)
  | .overwrite _ _ => none
  | .free _ => none

def HeapReply.onList : HeapReply → Option StoreReply
  | .stored => some .stored
  | .answered _ bytes length => some (.answered bytes length)
  | .done => none

/-! ### What the memory represents -/

/-- An entry, its block and what they stand for. -/
structure Record where
  entry : Address
  block : Address
  kv : KvEntry

def Record.cell (record : Record) : Address × Entry :=
  (record.entry, ⟨record.kv.key, record.kv.dataLength, record.block⟩)

def Linked (entries : Heap Entry) (head : Option Address) (records : List Record) : Prop :=
  Chain entries head (records.map Record.cell)

theorem addresses_cells (records : List Record) :
    addresses (records.map Record.cell) = records.map Record.entry := by
  rw [addresses, List.map_map]
  rfl

/-- The chains of the buckets hold the entries of the store, each with a block of its
    own; besides there are the copies that callers hold, and nothing else. -/
structure Represents (store : HeapStore) (layout : List (List Record)) (list : KvStore) : Prop where
  chains : List.Forall₂ (Linked store.entries) store.buckets layout
  entriesNodup : (layout.flatten.map Record.entry).Nodup
  entriesExact : ∀ address, store.entries address ≠ none →
    address ∈ layout.flatten.map Record.entry
  stored : ∀ record ∈ layout.flatten, store.blocks record.block = some record.kv.data
  blocksNodup : (layout.flatten.map Record.block ++ store.held).Nodup
  blocksExact : ∀ address, store.blocks address ≠ none ↔
    address ∈ layout.flatten.map Record.block ++ store.held
  buckets : list.buckets = layout.map (List.map Record.kv)
  count : list.bucketCount = store.bucketCount
  ready : list.Ready

theorem loadBlock_eq_ok {blocks : Blocks} {address : Address} {bytes : Bytes}
    (h : blocks address = some bytes) : loadBlock blocks address = .ok bytes := by
  simp only [loadBlock, h]

theorem freeBlock_eq_ok {blocks : Blocks} {address : Address} {bytes : Bytes}
    (h : blocks address = some bytes) :
    freeBlock blocks address = .ok (Function.update blocks address none) := by
  simp only [freeBlock, loadBlock_eq_ok h, ok_bind, pure_eq_ok]

theorem represents_new {bucketCount : UInt64} (hpos : 0 < bucketCount) :
    Represents (kvStoreNew bucketCount) (List.replicate bucketCount.toNat [])
      (Store.kvStoreNew bucketCount) := by
  have hflatten : (List.replicate bucketCount.toNat ([] : List Record)).flatten = [] :=
    List.flatten_replicate_nil
  refine ⟨?_, ?_, fun _ hlive => absurd rfl hlive, ?_, ?_, ?_, ?_, rfl, Store.kvStoreNew_ready hpos⟩
  · rw [List.forall₂_iff_get]
    refine ⟨by simp [kvStoreNew], fun i hi hi' => ?_⟩
    simp [kvStoreNew, Linked, Chain]
  · rw [hflatten]
    exact List.nodup_nil
  · rw [hflatten]
    intro record hmem
    cases hmem
  · rw [hflatten]
    exact List.nodup_nil
  · rw [hflatten]
    intro address
    exact ⟨fun hlive => absurd rfl hlive, fun hmem => nomatch hmem⟩
  · rw [List.map_replicate]
    rfl

/-! ### The walks -/

section Walks

variable {entries : Heap Entry} {result : Digest}

/-- The record of a digest. -/
def recordOf (records : List Record) (result : Digest) : Option Record :=
  records.find? fun record => record.kv.key = result

theorem lookupChain_kv (records : List Record) (result : Digest) :
    lookupChain (records.map Record.kv) result = (recordOf records result).map Record.kv := by
  rw [lookupChain, List.find?_map, recordOf]
  rfl

theorem recordOf_cons_of_ne {record : Record} (h : ¬ record.kv.key = result)
    (records : List Record) : recordOf (record :: records) result = recordOf records result :=
  List.find?_cons_of_neg (by simpa using h)

theorem getWalk_eq {records : List Record} :
    ∀ {ent : Address} {rounds : Nat}, Linked entries (some ent) records → records.length ≤ rounds →
      getWalk result entries rounds ent =
        .ok (some ((recordOf records result).map fun record => record.cell.2)) := by
  induction records with
  | nil =>
    intro ent rounds h
    cases h
  | cons record records ih =>
    rintro ent rounds ⟨hstart, next, hcell, hrest⟩ hrounds
    obtain rfl := Option.some.inj hstart
    obtain ⟨rounds, rfl⟩ := Nat.exists_eq_add_of_le' (Nat.lt_of_lt_of_le (Nat.succ_pos _) hrounds)
    simp only [getWalk, loadCell_eq_ok hcell, ok_bind, Store.memcmp_digest]
    by_cases hkey : record.kv.key = result
    · rw [if_pos hkey, recordOf, List.find?_cons_of_pos (by simpa using hkey)]
      rfl
    · rw [if_neg hkey, recordOf_cons_of_ne hkey]
      cases next with
      | none =>
        obtain rfl : records = [] := List.map_eq_nil_iff.mp hrest.eq_nil
        rfl
      | some next => exact ih hrest (Nat.le_of_succ_le_succ hrounds)

/-- The walk of a put stops at the digest and changes nothing, or it links the new entry
    behind the last one. -/
theorem putWalk_eq {store : HeapStore} {data : Bytes} {entry block : Address}
    (hunused : store.entries entry = none) {records : List Record} :
    ∀ {node : Address} {rounds : Nat}, Linked store.entries (some node) records →
      records.length ≤ rounds →
      ((recordOf records result).isSome = true ∧
        putWalk result data entry block rounds node store = .ok (some store)) ∨
      (recordOf records result = none ∧ ∃ front last, records = front ++ [last] ∧
        putWalk result data entry block rounds node store =
          .ok (some { kvEntryNew store entry block result data none with
            entries := placeCell (placeCell store.entries entry
              ⟨⟨result, data.length, block⟩, none⟩) last.entry ⟨last.cell.2, some entry⟩ })) := by
  induction records with
  | nil =>
    intro node rounds h
    cases h
  | cons record records ih =>
    rintro node rounds ⟨hstart, next, hcell, hrest⟩ hrounds
    obtain rfl := Option.some.inj hstart
    obtain ⟨rounds, rfl⟩ := Nat.exists_eq_add_of_le' (Nat.lt_of_lt_of_le (Nat.succ_pos _) hrounds)
    simp only [putWalk, loadCell_eq_ok hcell, ok_bind, Store.memcmp_digest]
    by_cases hkey : result = record.kv.key
    · refine Or.inl ⟨?_, by rw [if_pos hkey]; rfl⟩
      rw [recordOf, List.find?_cons_of_pos (by simpa using hkey.symm)]
      rfl
    · rw [if_neg hkey, recordOf_cons_of_ne fun h => hkey h.symm]
      cases next with
      | none =>
        obtain rfl : records = [] := List.map_eq_nil_iff.mp hrest.eq_nil
        refine Or.inr ⟨rfl, [], record, rfl, ?_⟩
        have hne : record.entry ≠ entry := by
          intro heq
          rw [heq] at hcell
          cases hunused.symm.trans hcell
        have hload : placeCell store.entries entry ⟨⟨result, data.length, block⟩, none⟩
            record.entry = some ⟨record.cell.2, none⟩ := by
          rw [placeCell_of_ne hne]
          exact hcell
        have hstore := storeNext_eq_ok hload (some entry)
        simp only [kvEntryNew, hstore, ok_bind, pure_eq_ok]
      | some next =>
        rcases ih hrest (Nat.le_of_succ_le_succ hrounds) with hfound | ⟨hnone, front, last, rfl, hwalk⟩
        · exact Or.inl hfound
        · exact Or.inr ⟨hnone, record :: front, last, rfl, hwalk⟩

end Walks

/-! ### Buckets -/

theorem Linked.congr {entries entries' : Heap Entry} {head : Option Address} {records : List Record}
    (h : Linked entries head records)
    (hsame : ∀ address ∈ records.map Record.entry, entries' address = entries address) :
    Linked entries' head records := by
  apply Chain.congr h
  rw [addresses_cells]
  exact hsame

theorem Linked.link {entries : Heap Entry} {head : Option Address} {before : List Record}
    {last record : Record} (h : Linked entries head (before ++ [last]))
    (hunused : entries record.entry = none) :
    Linked (placeCell (placeCell entries record.entry ⟨record.cell.2, none⟩) last.entry
      ⟨last.cell.2, some record.entry⟩) head ((before ++ [last]) ++ [record]) := by
  rw [Linked, List.map_append] at h
  rw [Linked, List.map_append, List.map_append, List.append_assoc]
  exact Chain.link h hunused

theorem linked_congr {entries entries' : Heap Entry} {heads : List (Option Address)}
    {layout : List (List Record)} (h : List.Forall₂ (Linked entries) heads layout)
    (hsame : ∀ address ∈ layout.flatten.map Record.entry, entries' address = entries address) :
    List.Forall₂ (Linked entries') heads layout := by
  induction h with
  | nil => exact .nil
  | @cons head records heads layout hhead _ ih =>
    rw [List.flatten_cons, List.map_append] at hsame
    refine .cons (hhead.congr fun address hmem => ?_) (ih fun address hmem => ?_)
    · exact hsame address (List.mem_append_left _ hmem)
    · exact hsame address (List.mem_append_right _ hmem)

theorem forall₂_split {α β : Type} {R : α → β → Prop} {as : List α} {bs : List β}
    (h : List.Forall₂ R as bs) :
    ∀ {index : Nat}, index < bs.length → ∃ front a back front' b back',
      as = front ++ a :: back ∧ bs = front' ++ b :: back' ∧ front.length = index ∧
      front'.length = index ∧ List.Forall₂ R front front' ∧ R a b ∧ List.Forall₂ R back back' := by
  induction h with
  | nil =>
    intro index hindex
    cases hindex
  | @cons a b as bs hab htail ih =>
    intro index hindex
    cases index with
    | zero => exact ⟨[], a, as, [], b, bs, rfl, rfl, rfl, rfl, .nil, hab, htail⟩
    | succ index =>
      obtain ⟨front, a', back, front', b', back', rfl, rfl, hfront, hfront', hR, hab', hback⟩ :=
        ih (Nat.lt_of_succ_lt_succ hindex)
      refine ⟨a :: front, a', back, b :: front', b', back', rfl, rfl, ?_, ?_, .cons hab hR, hab', hback⟩
      · rw [List.length_cons, hfront]
      · rw [List.length_cons, hfront']

/-- The new record among the others. -/
theorem flatten_extended (front back : List (List Record)) (chain : List Record) (record : Record) :
    (front ++ (chain ++ [record]) :: back).flatten.Perm
      (record :: (front ++ chain :: back).flatten) := by
  simp only [List.flatten_append, List.flatten_cons, List.append_assoc, List.singleton_append]
  rw [← List.append_assoc, ← List.append_assoc]
  exact List.perm_middle

theorem linked_live {entries : Heap Entry} {heads : List (Option Address)}
    {layout : List (List Record)} (h : List.Forall₂ (Linked entries) heads layout)
    {address : Address} (hmem : address ∈ layout.flatten.map Record.entry) :
    entries address ≠ none := by
  induction h with
  | nil => cases hmem
  | cons hhead _ ih =>
    rw [List.flatten_cons, List.map_append, List.mem_append] at hmem
    rcases hmem with hmem | hmem
    · rw [← addresses_cells] at hmem
      exact Chain.live hhead hmem
    · exact ih hmem

theorem sha1_key (key : Bytes) :
    Sha1.sha1 key (UInt32.ofNat key.length) = .ok (dig Sha1Standard.sha1 key) := by
  have hlength : (UInt32.ofNat key.length).toNat = key.length % 2 ^ 32 := UInt32.toNat_ofNat'
  rw [Sha1Stream.sha1_eq_ok (by rw [hlength]; exact Nat.mod_le _ _), hlength]
  rfl

theorem set_middle {α : Type} (front : List α) (old new : α) (back : List α) :
    (front ++ old :: back).set front.length new = front ++ new :: back := by
  simp

theorem live_placeCell {entries : Heap Entry} {entry : Address} {cell : Cell Entry}
    {address : Address} (hlive : placeCell entries entry cell address ≠ none) :
    address = entry ∨ entries address ≠ none := by
  by_cases heq : address = entry
  · exact Or.inl heq
  · rw [placeCell_of_ne heq] at hlive
    exact Or.inr hlive

theorem buckets_setBucket (list : KvStore) (index : Nat) (chain : List KvEntry) :
    (list.setBucket index chain).buckets = list.buckets.set index chain := rfl

/-- Where the bucket of a digest is, on the heap and in the list. -/
structure BucketAt (store : HeapStore) (layout : List (List Record)) (list : KvStore)
    (digest : Digest) (heads tails : List (Option Address)) (head : Option Address)
    (front back : List (List Record)) (chain : List Record) : Prop where
  buckets : store.buckets = heads ++ head :: tails
  layout : layout = front ++ chain :: back
  index : heads.length = (sha1ModBucket digest store.bucketCount).toNat
  listIndex : front.length = list.indexOf digest
  before : List.Forall₂ (Linked store.entries) heads front
  linked : Linked store.entries head chain
  after : List.Forall₂ (Linked store.entries) tails back
  chainOf : list.chainOf digest = chain.map Record.kv

section BucketAt

variable {store : HeapStore} {layout : List (List Record)} {list : KvStore} {digest : Digest}
  {heads tails : List (Option Address)} {head : Option Address} {front back : List (List Record)}
  {chain : List Record} (h : BucketAt store layout list digest heads tails head front back chain)

include h

theorem BucketAt.bucket :
    store.bucket (sha1ModBucket digest store.bucketCount).toNat = .ok head := by
  rw [HeapStore.bucket, h.buckets, ← h.index]
  simp

theorem BucketAt.length_chain_le : chain.length ≤ layout.flatten.length := by
  rw [h.layout]
  simp only [List.flatten_append, List.flatten_cons, List.length_append]
  omega

end BucketAt

namespace Represents

variable {store : HeapStore} {layout : List (List Record)} {list : KvStore}
  (h : Represents store layout list)

include h

theorem length_layout : layout.length = store.bucketCount.toNat := by
  rw [← h.count, ← list.length_buckets, h.buckets, List.length_map]

/-- The bucket of a digest. -/
theorem bucketAt (digest : Digest) :
    ∃ heads head tails front chain back,
      BucketAt store layout list digest heads tails head front back chain := by
  have hindex : list.indexOf digest < layout.length := by
    rw [h.length_layout, ← h.count]
    exact h.ready.indexOf_lt digest
  obtain ⟨heads, head, tails, front, chain, back, hheads, rfl, hlength, hlength', hfront, hchain,
    hback⟩ := forall₂_split h.chains hindex
  refine ⟨heads, head, tails, front, chain, back, hheads, rfl, ?_, hlength', hfront, hchain, hback, ?_⟩
  · rw [hlength, KvStore.indexOf, h.count]
  · rw [KvStore.chainOf, h.buckets, ← hlength', List.map_append, List.map_cons]
    simp

theorem entry_not_mem {entry : Address} (hunused : store.entries entry = none) :
    entry ∉ layout.flatten.map Record.entry := fun hmem => linked_live h.chains hmem hunused

theorem block_not_mem {block : Address} (hunused : store.blocks block = none) :
    block ∉ layout.flatten.map Record.block ++ store.held := fun hmem =>
  (h.blocksExact block).mpr hmem hunused

/-- **A new entry at the end of a bucket**, whether it is the first one or not. -/
theorem extend {heads tails : List (Option Address)} {front back : List (List Record)}
    {chain : List Record} {head : Option Address} {record : Record} {entries : Heap Entry}
    {list' : KvStore} (hlayout : layout = front ++ chain :: back)
    (hfront : List.Forall₂ (Linked store.entries) heads front)
    (hback : List.Forall₂ (Linked store.entries) tails back)
    (hentry : store.entries record.entry = none) (hblock : store.blocks record.block = none)
    (hchain : Linked entries head (chain ++ [record]))
    (hsame : ∀ address, address ≠ record.entry → address ∉ chain.map Record.entry →
      entries address = store.entries address)
    (hlive : ∀ address, entries address ≠ none → address = record.entry ∨
      store.entries address ≠ none)
    (hbuckets : list'.buckets = (front ++ (chain ++ [record]) :: back).map (List.map Record.kv))
    (hcount : list'.bucketCount = store.bucketCount) (hready : list'.Ready) :
    Represents
      { store with
        entries := entries
        blocks := placeBlock store.blocks record.block record.kv.data
        buckets := heads ++ head :: tails }
      (front ++ (chain ++ [record]) :: back) list' := by
  subst hlayout
  have hperm := flatten_extended front back chain record
  have hnewEntry := h.entry_not_mem hentry
  have hnewBlock := h.block_not_mem hblock
  have hnodup := h.entriesNodup
  simp only [List.flatten_append, List.flatten_cons, List.map_append, List.nodup_append,
    List.mem_append] at hnodup
  obtain ⟨-, ⟨-, -, hchainBack⟩, hfrontChain⟩ := hnodup
  simp only [List.flatten_append, List.flatten_cons, List.map_append, List.mem_append,
    not_or] at hnewEntry
  refine ⟨?_, ?_, ?_, ?_, ?_, ?_, hbuckets, hcount, hready⟩
  · -- the other chains have neither the new entry nor one of this bucket
    refine List.rel_append (linked_congr hfront fun address hmem => ?_)
      (.cons hchain (linked_congr hback fun address hmem => ?_))
    · apply hsame
      · rintro rfl
        exact hnewEntry.1 hmem
      · exact fun hmem' => hfrontChain address hmem address (Or.inl hmem') rfl
    · apply hsame
      · rintro rfl
        exact hnewEntry.2.2 hmem
      · exact fun hmem' => hchainBack address hmem' address hmem rfl
  · rw [(hperm.map Record.entry).nodup_iff, List.map_cons, List.nodup_cons]
    exact ⟨h.entry_not_mem hentry, h.entriesNodup⟩
  · intro address haddress
    rw [(hperm.map Record.entry).mem_iff, List.map_cons, List.mem_cons]
    exact (hlive address haddress).imp_right (h.entriesExact address)
  · intro other hmem
    rw [hperm.mem_iff, List.mem_cons] at hmem
    rcases hmem with rfl | hmem
    · exact Function.update_self ..
    · have hstored := h.stored other hmem
      have hne : other.block ≠ record.block := by
        intro heq
        rw [heq, hblock] at hstored
        cases hstored
      rw [← hstored]
      exact Function.update_of_ne hne ..
  · rw [((hperm.map Record.block).append_right _).nodup_iff, List.map_cons, List.cons_append,
      List.nodup_cons]
    exact ⟨hnewBlock, h.blocksNodup⟩
  · intro address
    rw [((hperm.map Record.block).append_right _).mem_iff, List.map_cons, List.cons_append,
      List.mem_cons, ← h.blocksExact]
    by_cases heq : address = record.block
    · subst heq
      simp [placeBlock]
    · simp [placeBlock, heq]

section Put

variable {key data : Bytes} {entry block : Address} {heads tails : List (Option Address)}
  {head : Option Address} {front back : List (List Record)} {chain : List Record}
  (hat : BucketAt store layout list (dig Sha1Standard.sha1 key) heads tails head front back chain)

include hat

/-- What becomes of the chains of `Store.lean` with a put. -/
theorem put_list : ∃ list', Store.kvStorePut Sha1Standard.sha1 list key data = .ok list' ∧
    list'.buckets = front.map (List.map Record.kv) ++
      putChain (chain.map Record.kv) (dig Sha1Standard.sha1 key) data ::
        back.map (List.map Record.kv) ∧
    list'.bucketCount = store.bucketCount ∧ list'.Ready := by
  refine ⟨_, h.ready.kvStorePut_eq Sha1Standard.sha1 key data, ?_, h.count, h.ready.count_pos,
    h.ready.locks_free⟩
  have hlength : (front.map (List.map Record.kv)).length =
      list.indexOf (dig Sha1Standard.sha1 key) := by
    rw [List.length_map, hat.listIndex]
  rw [hat.chainOf, buckets_setBucket, h.buckets, hat.layout, List.map_append, List.map_cons,
    ← hlength]
  exact set_middle ..

/-- The digest is not there: the bucket gets the new entry. -/
theorem put_absent (hentry : store.entries entry = none) (hblock : store.blocks block = none)
    (hnone : recordOf chain (dig Sha1Standard.sha1 key) = none) {entries : Heap Entry}
    {head' : Option Address}
    (hnew : Linked entries head'
      (chain ++ [⟨entry, block, Store.kvEntryNew (dig Sha1Standard.sha1 key) data⟩]))
    (hsame : ∀ address, address ≠ entry → address ∉ chain.map Record.entry →
      entries address = store.entries address)
    (hlive : ∀ address, entries address ≠ none → address = entry ∨ store.entries address ≠ none) :
    ∃ layout' list', Store.kvStorePut Sha1Standard.sha1 list key data = .ok list' ∧
      Represents
        { store with
          entries := entries
          blocks := placeBlock store.blocks block data
          buckets := heads ++ head' :: tails } layout' list' ∧
      layout'.flatten.length ≤ layout.flatten.length + 1 := by
  obtain ⟨list', hput, hbuckets, hcount, hready⟩ := @put_list _ _ _ h key data _ _ _ _ _ _ hat
  have habsent : ¬ (lookupChain (chain.map Record.kv) (dig Sha1Standard.sha1 key)).isSome = true := by
    rw [lookupChain_kv, hnone]
    exact Bool.false_ne_true
  have hbuckets' : list'.buckets = (front ++ (chain ++ [⟨entry, block,
      Store.kvEntryNew (dig Sha1Standard.sha1 key) data⟩]) :: back).map (List.map Record.kv) := by
    rw [hbuckets, putChain, if_neg habsent, List.map_append, List.map_cons, List.map_append]
    rfl
  refine ⟨_, list', hput, h.extend hat.layout hat.before hat.after hentry hblock hnew hsame hlive
    hbuckets' hcount hready, ?_⟩
  rw [(flatten_extended front back chain _).length_eq, hat.layout, List.length_cons]

end Put

theorem put {rounds : Nat} (hrounds : layout.flatten.length ≤ rounds) {entry block : Address}
    (hentry : store.entries entry = none) (hblock : store.blocks block = none) (key data : Bytes) :
    ∃ store' layout' list', kvStorePut rounds entry block store key data = .ok (some store') ∧
      Store.kvStorePut Sha1Standard.sha1 list key data = .ok list' ∧
      Represents store' layout' list' ∧ layout'.flatten.length ≤ layout.flatten.length + 1 ∧
      store'.held = store.held ∧
      ∀ address, store.blocks address ≠ none → store'.blocks address = store.blocks address := by
  obtain ⟨heads, head, tails, front, chain, back, hat⟩ := h.bucketAt (dig Sha1Standard.sha1 key)
  have hkeeps : ∀ address, store.blocks address ≠ none →
      placeBlock store.blocks block data address = store.blocks address := by
    intro address hlive
    apply Function.update_of_ne
    rintro rfl
    exact hlive hblock
  cases head with
  | none =>
    obtain rfl : chain = [] := List.map_eq_nil_iff.mp hat.linked.eq_nil
    have hnew : Linked (placeCell store.entries entry
        ⟨⟨dig Sha1Standard.sha1 key, data.length, block⟩, none⟩) (some entry)
        ([] ++ [⟨entry, block, Store.kvEntryNew (dig Sha1Standard.sha1 key) data⟩]) :=
      ⟨rfl, none, placeCell_self .., rfl⟩
    obtain ⟨layout', list', hput, hrep, hlength⟩ := h.put_absent hat hentry hblock rfl hnew
      (fun address hne _ => placeCell_of_ne hne ..) (fun address => live_placeCell)
    refine ⟨_, layout', list', ?_, hput, hrep, hlength, rfl, hkeeps⟩
    simp only [kvStorePut, sha1_key, ok_bind, hat.bucket, kvEntryNew, pure_eq_ok]
    rw [hat.buckets, ← hat.index, set_middle]
  | some node =>
    have hchain : chain.length ≤ rounds := Nat.le_trans hat.length_chain_le hrounds
    have hrun : kvStorePut rounds entry block store key data =
        putWalk (dig Sha1Standard.sha1 key) data entry block rounds node store := by
      simp only [kvStorePut, sha1_key, ok_bind, hat.bucket]
    rw [hrun]
    rcases @putWalk_eq _ store data entry block hentry _ _ _ hat.linked hchain with
      ⟨hsome, hwalk⟩ | ⟨hnone, before, last, rfl, hwalk⟩
    · obtain ⟨list', hput, hbuckets, hcount, hready⟩ := @put_list _ _ _ h key data _ _ _ _ _ _ hat
      refine ⟨store, layout, list', hwalk, hput, ⟨h.chains, h.entriesNodup, h.entriesExact, h.stored,
        h.blocksNodup, h.blocksExact, ?_, hcount, hready⟩, Nat.le_succ _, rfl, fun _ _ => rfl⟩
      rw [hbuckets, putChain, if_pos (by rw [lookupChain_kv, Option.isSome_map, hsome]), hat.layout,
        List.map_append, List.map_cons]
    · have hlast : last.entry ∈ (before ++ [last]).map Record.entry :=
        List.mem_map_of_mem (List.mem_append_right _ List.mem_cons_self)
      have hnew := @Linked.link _ _ _ _
        ⟨entry, block, Store.kvEntryNew (dig Sha1Standard.sha1 key) data⟩ hat.linked hentry
      obtain ⟨layout', list', hput, hrep, hlength⟩ := h.put_absent hat hentry hblock hnone hnew (by
        intro address hne hnot
        have hne' : address ≠ last.entry := fun heq => hnot (heq ▸ hlast)
        rw [placeCell_of_ne hne', placeCell_of_ne hne]) (by
        intro address hlive
        rcases live_placeCell hlive with rfl | hlive
        · rw [← addresses_cells] at hlast
          exact Or.inr (Chain.live hat.linked hlast)
        · exact live_placeCell hlive)
      rw [← hat.buckets] at hrep
      exact ⟨_, layout', list', hwalk, hput, hrep, hlength, rfl, hkeeps⟩

/-- A new copy, owned by a caller. -/
theorem hand_out {output : Address} (houtput : store.blocks output = none) (copy : Bytes) :
    Represents { store with blocks := placeBlock store.blocks output copy, held := output :: store.held }
      layout list := by
  have hnew := h.block_not_mem houtput
  refine ⟨h.chains, h.entriesNodup, h.entriesExact, ?_, ?_, ?_, h.buckets, h.count, h.ready⟩
  · intro record hmem
    have hne : record.block ≠ output := by
      rintro rfl
      exact hnew (List.mem_append_left _ (List.mem_map_of_mem hmem))
    rw [← h.stored record hmem]
    exact Function.update_of_ne hne ..
  · rw [List.perm_middle.nodup_iff, List.nodup_cons]
    exact ⟨hnew, h.blocksNodup⟩
  · intro address
    rw [List.perm_middle.mem_iff, List.mem_cons, ← h.blocksExact]
    by_cases heq : address = output
    · subst heq
      simp [placeBlock]
    · simp [placeBlock, heq]

theorem block_ne_copy {copy : Address} (hcopy : copy ∈ store.held) {record : Record}
    (hmem : record ∈ layout.flatten) : record.block ≠ copy := by
  intro heq
  exact (List.nodup_append.mp h.blocksNodup).2.2 record.block (List.mem_map_of_mem hmem) copy hcopy heq

theorem copy_live {copy : Address} (hcopy : copy ∈ store.held) :
    ∃ bytes, store.blocks copy = some bytes :=
  Option.ne_none_iff_exists'.mp ((h.blocksExact copy).mpr (List.mem_append_right _ hcopy))

/-- A caller writes to a copy. -/
theorem write_copy {copy : Address} (hcopy : copy ∈ store.held) (bytes : Bytes) :
    Represents { store with blocks := placeBlock store.blocks copy bytes } layout list := by
  refine ⟨h.chains, h.entriesNodup, h.entriesExact, ?_, h.blocksNodup, ?_, h.buckets, h.count, h.ready⟩
  · intro record hmem
    rw [← h.stored record hmem]
    exact Function.update_of_ne (h.block_ne_copy hcopy hmem) ..
  · intro address
    rw [← h.blocksExact]
    by_cases heq : address = copy
    · subst heq
      obtain ⟨old, hold⟩ := h.copy_live hcopy
      simp [placeBlock, hold]
    · simp [placeBlock, heq]

/-- A caller frees a copy. -/
theorem free_copy {copy : Address} (hcopy : copy ∈ store.held) :
    Represents
      { store with
        blocks := Function.update store.blocks copy none
        held := store.held.erase copy } layout list := by
  have hheld : store.held.Nodup := (List.nodup_append.mp h.blocksNodup).2.1
  refine ⟨h.chains, h.entriesNodup, h.entriesExact, ?_, ?_, ?_, h.buckets, h.count, h.ready⟩
  · intro record hmem
    rw [← h.stored record hmem]
    exact Function.update_of_ne (h.block_ne_copy hcopy hmem) ..
  · exact h.blocksNodup.sublist (List.Sublist.append_left List.erase_sublist _)
  · intro address
    have hbefore := h.blocksExact address
    rw [List.mem_append] at hbefore ⊢
    rw [hheld.mem_erase_iff]
    by_cases heq : address = copy
    · subst heq
      simp only [Function.update_self, ne_eq, not_true_eq_false, false_and, or_false, false_iff]
      rintro hmem
      obtain ⟨record, hrecord, hblock⟩ := List.mem_map.mp hmem
      exact h.block_ne_copy hcopy hrecord hblock
    · simp only [Function.update_of_ne heq, ne_eq, heq, not_false_eq_true, true_and]
      exact hbefore

theorem get {rounds : Nat} (hrounds : layout.flatten.length ≤ rounds) {output : Address}
    (houtput : store.blocks output = none) (key : Bytes) :
    ∃ output' length store', kvStoreGet rounds output store key = .ok (some ((output', length), store')) ∧
      Store.kvStoreGet Sha1Standard.sha1 list key =
        .ok ((output'.bind store'.blocks, length), list) ∧
      Represents store' layout list ∧
      (output' = none ∧ store' = store ∨ output' = some output ∧ ∃ copy, store' =
        { store with blocks := placeBlock store.blocks output copy, held := output :: store.held }) := by
  obtain ⟨heads, head, tails, front, chain, back, hat⟩ := h.bucketAt (dig Sha1Standard.sha1 key)
  have hget := h.ready.kvStoreGet_eq Sha1Standard.sha1 key
  rw [hat.chainOf, lookupChain_kv] at hget
  cases head with
  | none =>
    obtain rfl : chain = [] := List.map_eq_nil_iff.mp hat.linked.eq_nil
    refine ⟨none, 0, store, ?_, hget, h, Or.inl ⟨rfl, rfl⟩⟩
    simp only [kvStoreGet, sha1_key, ok_bind, hat.bucket, pure_eq_ok]
  | some ent =>
    have hwalk := @getWalk_eq _ (dig Sha1Standard.sha1 key) _ _ _ hat.linked
      (Nat.le_trans hat.length_chain_le hrounds)
    rcases hrecord : recordOf chain (dig Sha1Standard.sha1 key) with _ | record
    · rw [hrecord] at hwalk hget
      refine ⟨none, 0, store, ?_, hget, h, Or.inl ⟨rfl, rfl⟩⟩
      simp only [kvStoreGet, sha1_key, ok_bind, hat.bucket, hwalk, Option.map_none, pure_eq_ok]
    · rw [hrecord] at hwalk hget
      have hmem : record ∈ layout.flatten := by
        rw [hat.layout, List.flatten_append, List.flatten_cons]
        exact List.mem_append_right _ (List.mem_append_left _ (List.mem_of_find?_eq_some hrecord))
      have hload := loadBlock_eq_ok (h.stored record hmem)
      refine ⟨some output, record.kv.dataLength, _, ?_, ?_, h.hand_out houtput record.kv.data,
        Or.inr ⟨rfl, _, rfl⟩⟩
      · simp only [kvStoreGet, sha1_key, ok_bind, hat.bucket, hwalk, Option.map_some, Record.cell,
          hload, record.kv.readAt_data, pure_eq_ok]
      · rw [hget, Option.map_some]
        simp only [Option.bind_some, placeBlock, Function.update_self, record.kv.length_data]

/-- **One call, or one move of a caller**, on the heap and on the chains of `Store.lean`. -/
theorem step {rounds : Nat} (hrounds : layout.flatten.length ≤ rounds) {op : HeapOp}
    (hop : Admissible store op) :
    ∃ reply store' layout' list', heapStep rounds store op = .ok (some reply, store') ∧
      (match op.onList with
        | some call => ∃ answer, storeStep Sha1Standard.sha1 list call = .ok (answer, list') ∧
            reply.onList = some answer
        | none => list' = list ∧ reply.onList = none) ∧
      Represents store' layout' list' ∧ layout'.flatten.length ≤ layout.flatten.length + 1 ∧
      ∀ copy ∈ store.held, op.touches copy = false →
        copy ∈ store'.held ∧ store'.blocks copy = store.blocks copy := by
  have hlive : ∀ copy ∈ store.held, store.blocks copy ≠ none := fun copy hcopy =>
    (h.blocksExact copy).mpr (List.mem_append_right _ hcopy)
  cases op with
  | put entry block key data =>
    obtain ⟨store', layout', list', hput, hlist, hrep, hlength, hheld, hkeeps⟩ :=
      h.put hrounds hop.1 hop.2 key data
    refine ⟨.stored, store', layout', list', ?_, ⟨.stored, ?_, rfl⟩, hrep, hlength, ?_⟩
    · simp only [heapStep, hput, ok_bind, pure_eq_ok]
    · simp only [storeStep, hlist, ok_bind, pure_eq_ok]
    · intro copy hcopy _
      rw [hheld]
      exact ⟨hcopy, hkeeps copy (hlive copy hcopy)⟩
  | get output key =>
    obtain ⟨output', length, store', hget, hlist, hrep, heffect⟩ := h.get hrounds hop key
    refine ⟨.answered output' (output'.bind store'.blocks) length, store', layout, list, ?_,
      ⟨.answered (output'.bind store'.blocks) length, ?_, rfl⟩, hrep, Nat.le_succ _, ?_⟩
    · simp only [heapStep, hget, ok_bind, pure_eq_ok]
    · simp only [storeStep, hlist, ok_bind, pure_eq_ok]
    · intro copy hcopy _
      rcases heffect with ⟨-, rfl⟩ | ⟨-, bytes, rfl⟩
      · exact ⟨hcopy, rfl⟩
      · refine ⟨List.mem_cons_of_mem _ hcopy, Function.update_of_ne ?_ ..⟩
        rintro rfl
        exact hlive copy hcopy hop
  | overwrite copy bytes =>
    obtain ⟨old, hold⟩ := h.copy_live hop.1
    have hfits : 0 + bytes.length ≤ old.length := by
      rw [Nat.zero_add]
      exact hop.2 old hold
    obtain ⟨new, hwrite⟩ : ∃ new, writeAt old 0 bytes = .ok new := ⟨_, if_pos hfits⟩
    refine ⟨.done, _, layout, list, ?_, ⟨rfl, rfl⟩, h.write_copy hop.1 new, Nat.le_succ _, ?_⟩
    · simp only [heapStep, loadBlock_eq_ok hold, hwrite, ok_bind, pure_eq_ok]
    · intro other hother huntouched
      have hne : other ≠ copy := fun heq => of_decide_eq_false huntouched heq.symm
      exact ⟨hother, Function.update_of_ne hne ..⟩
  | free copy =>
    obtain ⟨old, hold⟩ := h.copy_live hop
    refine ⟨.done, _, layout, list, ?_, ⟨rfl, rfl⟩, h.free_copy hop, Nat.le_succ _, ?_⟩
    · simp only [heapStep, freeBlock_eq_ok hold, ok_bind, pure_eq_ok]
    · intro other hother huntouched
      have hne : other ≠ copy := fun heq => of_decide_eq_false huntouched heq.symm
      exact ⟨(List.mem_erase_of_ne hne).mpr hother, Function.update_of_ne hne ..⟩

end Represents

/-! ### Freeing everything -/

/-- The entries and the blocks of the records are gone, the others are as before. -/
structure Cleared (store store' : HeapStore) (records : List Record) : Prop where
  entries : ∀ address, store'.entries address =
    if address ∈ records.map Record.entry then none else store.entries address
  blocks : ∀ address, store'.blocks address =
    if address ∈ records.map Record.block then none else store.blocks address

theorem cleared_nil (store : HeapStore) : Cleared store store [] :=
  ⟨fun _ => rfl, fun _ => rfl⟩

theorem Cleared.append {store store' store'' : HeapStore} {first second : List Record}
    (h : Cleared store store' first) (h' : Cleared store' store'' second) :
    Cleared store store'' (first ++ second) := by
  constructor
  · intro address
    rw [h'.entries, h.entries, List.map_append]
    by_cases hsecond : address ∈ second.map Record.entry
    · rw [if_pos hsecond, if_pos (List.mem_append_right _ hsecond)]
    · simp only [List.mem_append, hsecond, or_false, if_false]
  · intro address
    rw [h'.blocks, h.blocks, List.map_append]
    by_cases hsecond : address ∈ second.map Record.block
    · rw [if_pos hsecond, if_pos (List.mem_append_right _ hsecond)]
    · simp only [List.mem_append, hsecond, or_false, if_false]

theorem kvEntryDestroy_eq {store : HeapStore} {record : Record} {next : Option Address} {data : Bytes}
    (hcell : store.entries record.entry = some ⟨record.cell.2, next⟩)
    (hblock : store.blocks record.block = some data) :
    ∃ store', kvEntryDestroy store record.entry = .ok store' ∧
      store'.entries = freeCell store.entries record.entry ∧ Cleared store store' [record] := by
  have hfree : freeBlock store.blocks record.cell.2.data =
      .ok (Function.update store.blocks record.block none) := freeBlock_eq_ok hblock
  refine ⟨{ store with
    entries := freeCell store.entries record.entry
    blocks := Function.update store.blocks record.block none }, ?_, rfl, fun address => ?_,
    fun address => ?_⟩
  · simp only [kvEntryDestroy, loadCell_eq_ok hcell, hfree, release_eq hcell, ok_bind, pure_eq_ok]
  · simp [freeCell, Function.update_apply]
  · simp [Function.update_apply]

/-- **Freeing a bucket** frees its entries and their blocks. -/
theorem destroyChain_eq {records : List Record} :
    ∀ {store : HeapStore} {head : Option Address} {rounds : Nat}, Linked store.entries head records →
      (records.map Record.block).Nodup →
      (∀ record ∈ records, ∃ data, store.blocks record.block = some data) →
      records.length ≤ rounds →
      ∃ store', destroyChain rounds head store = .ok (some store') ∧ Cleared store store' records := by
  induction records with
  | nil =>
    rintro store head rounds rfl _ _ _
    exact ⟨store, by rw [destroyChain], cleared_nil store⟩
  | cons record records ih =>
    intro store head rounds h hnodup hstored hrounds
    have hnot : record.entry ∉ records.map Record.entry := by
      have hentries : (addresses ((record :: records).map Record.cell)).Nodup := Chain.nodup h
      rw [addresses_cells, List.map_cons, List.nodup_cons] at hentries
      exact hentries.1
    rw [List.map_cons, List.nodup_cons] at hnodup
    obtain ⟨rfl, next, hcell, hrest⟩ := h
    obtain ⟨rounds, rfl⟩ := Nat.exists_eq_add_of_le' (Nat.lt_of_lt_of_le (Nat.succ_pos _) hrounds)
    obtain ⟨data, hblock⟩ := hstored record List.mem_cons_self
    obtain ⟨store', hdestroy, hentries, hcleared⟩ := kvEntryDestroy_eq hcell hblock
    have hlinked : Linked store'.entries next records := by
      rw [hentries]
      rw [← addresses_cells] at hnot
      exact Chain.free hrest hnot
    obtain ⟨final, hrun, hfinal⟩ := ih hlinked hnodup.2 (by
      intro other hmem
      have hne : other.block ∉ [record].map Record.block := by
        rw [List.map_singleton, List.mem_singleton]
        intro heq
        exact hnodup.1 (heq ▸ List.mem_map_of_mem hmem)
      rw [hcleared.blocks, if_neg hne]
      exact hstored other (List.mem_cons_of_mem _ hmem)) (Nat.le_of_succ_le_succ hrounds)
    refine ⟨final, ?_, hcleared.append hfinal⟩
    have hload : loadCell store.entries record.entry = .ok ⟨record.cell.2, next⟩ :=
      loadCell_eq_ok hcell
    simp only [destroyChain, Record.cell, hload, hdestroy, ok_bind]
    exact hrun

theorem destroyBuckets_eq {rounds : Nat} {layout : List (List Record)} :
    ∀ {store : HeapStore} {heads : List (Option Address)},
      List.Forall₂ (Linked store.entries) heads layout →
      (layout.flatten.map Record.entry).Nodup → (layout.flatten.map Record.block).Nodup →
      (∀ record ∈ layout.flatten, ∃ data, store.blocks record.block = some data) →
      layout.flatten.length ≤ rounds →
      ∃ store', destroyBuckets rounds heads store = .ok (some store') ∧
        Cleared store store' layout.flatten := by
  induction layout with
  | nil =>
    intro store heads h _ _ _ _
    cases h
    exact ⟨store, rfl, cleared_nil store⟩
  | cons records layout ih =>
    intro store heads h hentries hblocks hstored hrounds
    cases h with
    | @cons head _ heads _ hhead htail =>
      rw [List.flatten_cons, List.map_append, List.nodup_append] at hentries hblocks
      rw [List.flatten_cons, List.length_append] at hrounds
      obtain ⟨store', hrun, hcleared⟩ := destroyChain_eq hhead hblocks.1
        (fun record hmem => hstored record (List.mem_append_left _ hmem))
        (show records.length ≤ rounds by omega)
      have hsame : ∀ address ∈ layout.flatten.map Record.entry,
          store'.entries address = store.entries address := by
        intro address hmem
        rw [hcleared.entries, if_neg fun hmem' => hentries.2.2 address hmem' address hmem rfl]
      obtain ⟨final, hrun', hfinal⟩ := ih (linked_congr htail hsame) hentries.2.1 hblocks.2.1 (by
        intro record hmem
        rw [hcleared.blocks, if_neg fun hmem' =>
          hblocks.2.2 record.block hmem' record.block (List.mem_map_of_mem hmem) rfl]
        exact hstored record (List.mem_append_right _ hmem)) (by omega)
      refine ⟨final, ?_, hcleared.append hfinal⟩
      simp only [destroyBuckets, hrun, ok_bind]
      exact hrun'

/-- `kv_store_destroy` leaves the copies. -/
theorem Represents.destroy {store : HeapStore} {layout : List (List Record)} {list : KvStore}
    (h : Represents store layout list) {rounds : Nat} (hrounds : layout.flatten.length ≤ rounds) :
    ∃ final, kvStoreDestroy rounds store = .ok (some final) ∧ (final.entries = fun _ => none) ∧
      ∀ address, final.blocks address = if address ∈ store.held then store.blocks address else none := by
  have hblocks := List.nodup_append.mp h.blocksNodup
  obtain ⟨final, hrun, hcleared⟩ := destroyBuckets_eq h.chains h.entriesNodup hblocks.1
    (fun record hmem => ⟨_, h.stored record hmem⟩) hrounds
  refine ⟨final, hrun, ?_, fun address => ?_⟩
  · funext address
    rw [hcleared.entries]
    by_cases hmem : address ∈ layout.flatten.map Record.entry
    · rw [if_pos hmem]
    · rw [if_neg hmem]
      by_contra hlive
      exact hmem (h.entriesExact address hlive)
  · rw [hcleared.blocks]
    by_cases hmem : address ∈ layout.flatten.map Record.block
    · rw [if_pos hmem, if_neg fun hheld => hblocks.2.2 address hmem address hheld rfl]
    · rw [if_neg hmem]
      by_cases hheld : address ∈ store.held
      · rw [if_pos hheld]
      · rw [if_neg hheld]
        by_contra hlive
        exact (List.mem_append.mp ((h.blocksExact address).mp hlive)).elim hmem hheld

/-! ### Whole runs -/

theorem run_heapStep {rounds : Nat} {ops : List HeapOp} :
    ∀ {store : HeapStore} {layout : List (List Record)} {list : KvStore},
      Represents store layout list → layout.flatten.length + ops.length ≤ rounds →
      StepsMeet (heapStep rounds) Admissible store ops →
      ∃ (replies : List HeapReply) (final : HeapStore) (layout' : List (List Record)) (list' : KvStore),
        run (heapStep rounds) store ops = .ok (replies.map some, final) ∧
        run (storeStep Sha1Standard.sha1) list (ops.filterMap HeapOp.onList) =
          .ok (replies.filterMap HeapReply.onList, list') ∧
        Represents final layout' list' ∧
        layout'.flatten.length ≤ layout.flatten.length + ops.length ∧
        ∀ copy ∈ store.held, (∀ op ∈ ops, op.touches copy = false) →
          copy ∈ final.held ∧ final.blocks copy = store.blocks copy := by
  induction ops with
  | nil =>
    intro store layout list h _ _
    exact ⟨[], store, layout, list, rfl, rfl, h, Nat.le_refl _, fun copy hcopy _ => ⟨hcopy, rfl⟩⟩
  | cons op ops ih =>
    rintro store layout list h hrounds ⟨hop, hops⟩
    rw [List.length_cons] at hrounds
    have hroom : layout.flatten.length ≤ rounds := by omega
    obtain ⟨reply, next, layout', list', hstep, hlist, hnext, hlength, hcopies⟩ := h.step hroom hop
    obtain ⟨replies, final, layout'', list'', hrun, hrun', hfinal, hlength', hcopies'⟩ :=
      ih hnext (by omega) (hops _ next hstep)
    refine ⟨reply :: replies, final, layout'', list'', ?_, ?_, hfinal, ?_, ?_⟩
    · simp only [run, hstep, hrun, ok_bind, pure_eq_ok, List.map_cons]
    · rcases hcall : op.onList with _ | call
      · rw [hcall] at hlist
        obtain ⟨rfl, hreply⟩ := hlist
        rw [List.filterMap_cons_none hcall, List.filterMap_cons_none hreply]
        exact hrun'
      · rw [hcall] at hlist
        obtain ⟨answer, hanswer, hreply⟩ := hlist
        rw [List.filterMap_cons_some hcall, List.filterMap_cons_some hreply]
        simp only [run, hanswer, hrun', ok_bind, pure_eq_ok]
    · rw [List.length_cons]
      omega
    · intro copy hcopy huntouched
      obtain ⟨hheld, hsame⟩ := hcopies copy hcopy (huntouched op List.mem_cons_self)
      obtain ⟨hheld', hsame'⟩ := hcopies' copy hheld fun other hother =>
        huntouched other (List.mem_cons_of_mem op hother)
      exact ⟨hheld', hsame'.trans hsame⟩

section Runs

variable {bucketCount : UInt64} (hpos : 0 < bucketCount) {rounds : Nat} {ops : List HeapOp}
  (hops : StepsMeet (heapStep rounds) Admissible (kvStoreNew bucketCount) ops)

include hpos hops

/-- What a run from `kv_store_new` leads to. -/
theorem run_new (hrounds : ops.length ≤ rounds) :
    ∃ (replies : List HeapReply) (final : HeapStore) (layout : List (List Record)) (list : KvStore),
      run (heapStep rounds) (kvStoreNew bucketCount) ops = .ok (replies.map some, final) ∧
      run (storeStep Sha1Standard.sha1) (Store.kvStoreNew bucketCount) (ops.filterMap HeapOp.onList) =
        .ok (replies.filterMap HeapReply.onList, list) ∧
      Represents final layout list ∧ layout.flatten.length ≤ ops.length := by
  have hempty : (List.replicate bucketCount.toNat ([] : List Record)).flatten.length = 0 := by
    rw [List.flatten_replicate_nil, List.length_nil]
  obtain ⟨replies, final, layout, list, hrun, hrun', hfinal, hlength, -⟩ :=
    run_heapStep (represents_new hpos) (by omega) hops
  exact ⟨replies, final, layout, list, hrun, hrun', hfinal, by omega⟩

/-- **The store with its memory is the store of the chains, and it cleans up behind
    itself.**  In every run from `kv_store_new` in which `malloc` returns unused addresses
    and callers keep to their own copies: no access faults and every loop ends; a get
    answers with a fresh copy of what the chains answer, with the SHA-1 of the standard,
    whatever callers have done to earlier copies; and `kv_store_destroy` frees every entry
    and every block of an entry once, and nothing else. -/
theorem heap_refines_store (hrounds : ops.length ≤ rounds) :
    ∃ (replies : List HeapReply) (final : HeapStore) (list : KvStore) (destroyed : HeapStore),
      run (heapStep rounds) (kvStoreNew bucketCount) ops = .ok (replies.map some, final) ∧
      run (storeStep Sha1Standard.sha1) (Store.kvStoreNew bucketCount) (ops.filterMap HeapOp.onList) =
        .ok (replies.filterMap HeapReply.onList, list) ∧
      kvStoreDestroy rounds final = .ok (some destroyed) ∧ (destroyed.entries = fun _ => none) ∧
      ∀ address, destroyed.blocks address =
        if address ∈ final.held then final.blocks address else none := by
  obtain ⟨replies, final, layout, list, hrun, hrun', hfinal, hlength⟩ := run_new hpos hops hrounds
  obtain ⟨destroyed, hdestroy, hentries, hblocks⟩ := hfinal.destroy (Nat.le_trans hlength hrounds)
  exact ⟨replies, final, list, destroyed, hrun, hrun', hdestroy, hentries, hblocks⟩

end Runs

/-! A store with one bucket, so that the index of a digest is 0. -/

theorem index_one (digest : Digest) : (sha1ModBucket digest 1).toNat = 0 := by
  have hlt := UInt64.lt_iff_toNat_lt.mp (Store.sha1ModBucket_lt digest (by decide : (0 : UInt64) < 1))
  exact Nat.lt_one_iff.mp hlt

def oneEntry : HeapStore :=
  ⟨placeCell (fun _ => none) 1 ⟨⟨dig Sha1Standard.sha1 [97], 1, 2⟩, none⟩,
    placeBlock (fun _ => none) 2 [98], [some 1], 1, []⟩

def oneCopy : HeapStore :=
  { oneEntry with blocks := placeBlock oneEntry.blocks 3 [98], held := [3] }

theorem heapStep_oneEntry :
    heapStep 9 (kvStoreNew 1) (.put 1 2 [97] [98]) = .ok (some .stored, oneEntry) := by
  simp only [heapStep, kvStorePut, sha1_key, ok_bind, kvStoreNew, index_one]
  rfl

theorem heapStep_oneCopy :
    heapStep 9 oneEntry (.get 3 [97]) =
      .ok (some (.answered (some 3) (some [98]) 1), oneCopy) := by
  have hbucket : oneEntry.bucket 0 = .ok (some 1) := rfl
  have hcount : oneEntry.bucketCount = 1 := rfl
  have hload : loadCell oneEntry.entries 1 = .ok ⟨⟨dig Sha1Standard.sha1 [97], 1, 2⟩, none⟩ := rfl
  have hwalk : getWalk (dig Sha1Standard.sha1 [97]) oneEntry.entries 9 1 =
      .ok (some (some ⟨dig Sha1Standard.sha1 [97], 1, 2⟩)) := by
    simp only [getWalk, hload, ok_bind, (Store.memcmp_digest _ _).mpr, if_true, pure_eq_ok]
  simp only [heapStep, kvStoreGet, sha1_key, ok_bind, hcount, index_one, hbucket, hwalk]
  rfl

theorem admissible_oneCopy :
    StepsMeet (heapStep 9) Admissible (kvStoreNew 1) [.put 1 2 [97] [98], .get 3 [97],
      .overwrite 3 [0], .free 3] := by
  refine (stepsMeet_cons (heapStep 9) heapStep_oneEntry).mpr ⟨⟨rfl, rfl⟩, ?_⟩
  refine (stepsMeet_cons (heapStep 9) heapStep_oneCopy).mpr ⟨rfl, ?_⟩
  refine (stepsMeet_cons (heapStep 9) rfl).mpr ⟨⟨List.mem_cons_self, ?_⟩, ?_⟩
  · intro old hold
    cases hold
    decide
  · exact (stepsMeet_cons (heapStep 9) rfl).mpr ⟨List.mem_cons_self, trivial⟩

/-- A copy is overwritten and freed. -/
theorem heap_refines_store_oneCopy :
    ∃ (replies : List HeapReply) (final destroyed : HeapStore),
      run (heapStep 9) (kvStoreNew 1) [.put 1 2 [97] [98], .get 3 [97], .overwrite 3 [0], .free 3] =
        .ok (replies.map some, final) ∧
      kvStoreDestroy 9 final = .ok (some destroyed) ∧ (destroyed.entries = fun _ => none) := by
  obtain ⟨replies, final, -, destroyed, hrun, -, hdestroy, hentries, -⟩ :=
    heap_refines_store (by decide) admissible_oneCopy (by decide)
  exact ⟨replies, final, destroyed, hrun, hdestroy, hentries⟩

section Copies

variable {bucketCount : UInt64} (hpos : 0 < bucketCount) {rounds : Nat} {ops : List HeapOp}
  (hops : StepsMeet (heapStep rounds) Admissible (kvStoreNew bucketCount) ops)

include hpos hops

/-- **A copy outlives the store.**  After any run, let a get hand out a copy.  Through
    whatever calls follow, as long as its owner leaves it alone, and through
    `kv_store_destroy` after them, the copy keeps its bytes. -/
theorem copy_outlives_store {replies : List (Option HeapReply)} {store next : HeapStore}
    (hrun : run (heapStep rounds) (kvStoreNew bucketCount) ops = .ok (replies, store))
    {output copy : Address} {key bytes : Bytes} {length : Nat} (houtput : store.blocks output = none)
    (hget : heapStep rounds store (.get output key) =
      .ok (some (.answered (some copy) (some bytes) length), next))
    {more : List HeapOp} (hmore : StepsMeet (heapStep rounds) Admissible next more)
    (hrounds : ops.length + more.length ≤ rounds)
    (huntouched : ∀ op ∈ more, op.touches copy = false) :
    ∃ replies' final destroyed, run (heapStep rounds) next more = .ok (replies', final) ∧
      final.blocks copy = some bytes ∧ kvStoreDestroy rounds final = .ok (some destroyed) ∧
      destroyed.blocks copy = some bytes := by
  obtain ⟨replies', store', layout, list, hrun', -, h, hlength⟩ := run_new hpos hops (by omega)
  rw [hrun] at hrun'
  cases hrun'
  obtain ⟨output', length', next', hget', -, hnext, heffect⟩ :=
    h.get (show layout.flatten.length ≤ rounds by omega) houtput key
  simp only [heapStep, hget', ok_bind, pure_eq_ok, Except.ok.injEq, Prod.mk.injEq, Option.some.injEq,
    HeapReply.answered.injEq] at hget
  obtain ⟨⟨rfl, hbytes, rfl⟩, rfl⟩ := hget
  have hheld : copy ∈ next'.held := by
    rcases heffect with ⟨hnone, -⟩ | ⟨hsome, data, hnext'⟩
    · cases hnone
    · rw [hnext', Option.some.inj hsome]
      exact List.mem_cons_self
  obtain ⟨replies', final, layout', list', hrun', -, hfinal, hlength', hcopies⟩ :=
    run_heapStep hnext (by omega) hmore
  obtain ⟨hheld', hsame⟩ := hcopies copy hheld huntouched
  obtain ⟨destroyed, hdestroy, -, hblocks⟩ :=
    hfinal.destroy (show layout'.flatten.length ≤ rounds by omega)
  have hkept : final.blocks copy = some bytes := hsame.trans hbytes
  refine ⟨_, final, destroyed, hrun', hkept, hdestroy, ?_⟩
  rw [hblocks, if_pos hheld', hkept]

end Copies

/-- The caller has its copy when the store is gone. -/
theorem copy_outlives_store_oneCopy :
    ∃ replies final destroyed,
      run (heapStep 9) oneCopy [.put 5 6 [99] [100]] = .ok (replies, final) ∧
      final.blocks 3 = some [98] ∧ kvStoreDestroy 9 final = .ok (some destroyed) ∧
      destroyed.blocks 3 = some [98] := by
  have hops : StepsMeet (heapStep 9) Admissible (kvStoreNew 1) [.put 1 2 [97] [98]] :=
    (stepsMeet_cons (heapStep 9) heapStep_oneEntry).mpr ⟨⟨rfl, rfl⟩, trivial⟩
  have hrun : run (heapStep 9) (kvStoreNew 1) [.put 1 2 [97] [98]] = .ok ([some .stored], oneEntry) := by
    simp only [run, heapStep_oneEntry, ok_bind, pure_eq_ok]
  exact copy_outlives_store (by decide) hops hrun rfl heapStep_oneCopy
    ⟨⟨rfl, rfl⟩, fun _ _ _ => trivial⟩ (by decide) (by decide)

end Cdht.StoreHeap
