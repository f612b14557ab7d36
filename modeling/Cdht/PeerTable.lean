/-
  Cdht/PeerTable.lean
  ===================
  **The peer lookup table** (`src/node/lookup_table.c`,
  `include/node/lookup_table.h`).

  A table is a linked chain of peers, newest first, with a cached `size` and one
  mutex.  The chain is the list of the nodes' `info` in `next` order.  `size` is a
  natural number: every counted node is a heap block of its own, so a `size_t`
  counter does not wrap.  The arithmetic on sizes read from the outside or computed
  from the counter is modulo 2^64, as in the source.

  Every lock and unlock of the source is a step of the model, under a
  `MutexKind`: with `normal`, locking a mutex that the running operation holds is
  a fault, with `transparent` the lock operations have no effect.  Calls to
  `malloc` and `pthread_mutex_init` succeed or fail as an argument says.  The guard
  against a NULL table, common to all operations, is in `callTable`.
-/
import Cdht.ByteOrder
import Cdht.Format
import Cdht.Strings

namespace Cdht.PeerTable

open Cdht.Memory Cdht.ByteOrder Cdht.Format Cdht.Strings

/-! ### Data model -/

def HASH_SIZE : Nat := 20
def MAX_HOST_LEN : Nat := 46

def RECORD_SIZE : Nat := MAX_HOST_LEN + 4 + HASH_SIZE

abbrev Hash := CharArray HASH_SIZE

/-- The bytes of a `host` field as `create_node` leaves them: a bounded copy of
    some string, zero-padded and terminated. -/
def storedHost (host : Bytes) : Bytes := strncpy host (MAX_HOST_LEN - 1) ++ [0]

/-- `node_info_t`.  The host field is always in the form `create_node` gives it. -/
structure NodeInfo where
  host : Bytes
  port : Int32
  hash : Hash
  host_stored : storedHost host = host
deriving DecidableEq

structure LookupTable where
  head : List NodeInfo
  mutex : Mutex
  size : Nat
deriving DecidableEq

/-- Which of the allocations of one call succeed: the table, its mutex, and the
    node of each loop iteration. -/
structure Allocation where
  table : Bool
  mutexInit : Bool
  node : Nat → Bool

def Allocation.succeeds : Allocation := ⟨true, true, fun _ => true⟩

theorem storedHost_storedHost (host : Bytes) : storedHost (storedHost host) = storedHost host := by
  rw [storedHost, storedHost, strncpy_strncpy_nul]

def createNode (malloc : Bool) (host : Bytes) (port : Int32) (hash : Hash) : Option NodeInfo :=
  if malloc then some ⟨storedHost host, port, hash, storedHost_storedHost host⟩ else none

def hashEqual (hash1 hash2 : Hash) : Bool := memcmp hash1.val hash2.val = 0

def peerMatches (host : CString) (port : Int32) (info : NodeInfo) : Bool :=
  strcmp info.host host.chars = 0 && info.port = port

def hashMatches (hash : Hash) (info : NodeInfo) : Bool := hashEqual info.hash hash

/-! ### Locking -/

def LookupTable.lock (kind : MutexKind) (table : LookupTable) : Exec LookupTable := do
  let mutex ← table.mutex.lock kind
  return { table with mutex := mutex }

def LookupTable.unlock (kind : MutexKind) (table : LookupTable) : Exec LookupTable := do
  let mutex ← table.mutex.unlock kind
  return { table with mutex := mutex }

/-! ### Creating and destroying -/

def lookupTableCreate (alloc : Allocation) : Option LookupTable :=
  if alloc.table then
    if alloc.mutexInit then some ⟨[], .free, 0⟩ else none
  else none

/-- `lookup_table_destroy` of a table that nobody uses any more.  Only its locking
    can be observed. -/
def lookupTableDestroy (kind : MutexKind) (table : LookupTable) : Exec Unit := do
  let table ← table.lock kind
  let _ ← table.unlock kind
  return ()

/-! ### Adding, removing, finding -/

def existsLoop (isMatch : NodeInfo → Bool) : List NodeInfo → Bool
  | [] => false
  | current :: next => if isMatch current then true else existsLoop isMatch next

def findLoop (isMatch : NodeInfo → Bool) : List NodeInfo → Option NodeInfo
  | [] => none
  | current :: next => if isMatch current then some current else findLoop isMatch next

/-- The loop of `lookup_table_remove` and `lookup_table_remove_by_hash`.  `passed`
    holds the nodes behind `current`, nearest first, so its head is `prev`; the
    result is the chain afterwards and the flag `removed`. -/
def unlinkLoop (isMatch : NodeInfo → Bool) (passed : List NodeInfo) :
    List NodeInfo → List NodeInfo × Bool
  | [] => (passed.reverse, false)
  | current :: next =>
      if isMatch current then
        match passed with
        | [] => (next, true)                                       -- table->head = current->next
        | prev :: before => (before.reverse ++ prev :: next, true)  -- prev->next = current->next
      else unlinkLoop isMatch (current :: passed) next

section Operations

variable (kind : MutexKind)

def lookupTableAdd (malloc : Bool) (table : LookupTable) (host : Option CString) (port : Int32)
    (hash : Option Hash) : Exec (Int × LookupTable) :=
  match host, hash with
  | some host, some hash => do
      let table ← table.lock kind
      if existsLoop (peerMatches host port) table.head then
        let table ← table.unlock kind
        return (0, table)  -- already exists
      else
        match createNode malloc host.chars port hash with
        | none =>
            let table ← table.unlock kind
            return (-1, table)
        | some newNode =>
            let table := { table with head := newNode :: table.head, size := table.size + 1 }
            let table ← table.unlock kind
            return (1, table)
  | _, _ => .ok (-1, table)

def removeMatching (isMatch : NodeInfo → Bool) (table : LookupTable) :
    Exec (Int × LookupTable) := do
  let table ← table.lock kind
  let (head, removed) := unlinkLoop isMatch [] table.head
  let size := if removed then table.size - 1 else table.size
  let table := { table with head := head, size := size }
  let table ← table.unlock kind
  return (if removed then 1 else 0, table)

def lookupTableRemove (table : LookupTable) (host : Option CString) (port : Int32) :
    Exec (Int × LookupTable) :=
  match host with
  | some host => removeMatching kind (peerMatches host port) table
  | none => .ok (-1, table)

def lookupTableRemoveByHash (table : LookupTable) (hash : Option Hash) :
    Exec (Int × LookupTable) :=
  match hash with
  | some hash => removeMatching kind (hashMatches hash) table
  | none => .ok (-1, table)

def findMatching (isMatch : NodeInfo → Bool) (table : LookupTable) :
    Exec (Option NodeInfo × LookupTable) := do
  let table ← table.lock kind
  let result := findLoop isMatch table.head
  let table ← table.unlock kind
  return (result, table)

def lookupTableFind (table : LookupTable) (host : Option CString) (port : Int32) :
    Exec (Option NodeInfo × LookupTable) :=
  match host with
  | some host => findMatching kind (peerMatches host port) table
  | none => .ok (none, table)

def lookupTableFindByHash (table : LookupTable) (hash : Option Hash) :
    Exec (Option NodeInfo × LookupTable) :=
  match hash with
  | some hash => findMatching kind (hashMatches hash) table
  | none => .ok (none, table)

def lookupTableSize (table : LookupTable) : Exec (Nat × LookupTable) := do
  let table ← table.lock kind
  let size := table.size
  let table ← table.unlock kind
  return (size, table)

/-! ### Serialization -/

/-- The `size_t` expression `sizeof(size_t) + count * (MAX_HOST_LEN + sizeof(int) +
    HASH_SIZE)`. -/
def tableBytes (count : Nat) : Nat := (8 + count * RECORD_SIZE) % 2 ^ 64

def lookupTableSerializedSize (table : LookupTable) : Exec (Nat × LookupTable) := do
  let table ← table.lock kind
  let size := tableBytes table.size
  let table ← table.unlock kind
  return (size, table)

def portBytes (port : Int32) : Bytes := leBytes 4 port.toUInt32.toNat

def portOfBytes (bytes : Bytes) : Int32 := (UInt32.ofNat (leValue bytes)).toInt32

def serializeLoop (buffer : Bytes) (offset : Nat) : List NodeInfo → Exec Bytes
  | [] => .ok buffer
  | current :: next => do
      let buffer ← writeAt buffer offset current.host
      let offset := offset + MAX_HOST_LEN
      let buffer ← writeAt buffer offset (portBytes current.port)
      let offset := offset + 4
      let buffer ← writeAt buffer offset current.hash.val
      let offset := offset + HASH_SIZE
      serializeLoop buffer offset next

/-- `lookup_table_serialize`: the returned code and the buffer afterwards.  The
    nested call of `lookup_table_serialized_size` locks the mutex again. -/
def lookupTableSerialize (table : LookupTable) (buffer : Option Bytes) (bufferSize : Nat) :
    Exec ((Int × Option Bytes) × LookupTable) :=
  match buffer with
  | some buffer => do
      let table ← table.lock kind
      let (requiredSize, table) ← lookupTableSerializedSize kind table
      if bufferSize < requiredSize then
        let table ← table.unlock kind
        return ((-1, some buffer), table)
      else
        let buffer ← writeAt buffer 0 (leBytes 8 table.size)
        let buffer ← serializeLoop buffer 8 table.head
        let table ← table.unlock kind
        return ((0, some buffer), table)
  | none => .ok ((-1, none), table)

/-- The reading loop of `lookup_table_deserialize`, from iteration `i` on with
    `remaining` iterations to go: whether every `create_node` succeeded, and the
    table so far. -/
def deserializeLoop (node : Nat → Bool) (data : Bytes) :
    Nat → Nat → Nat → LookupTable → Exec (Bool × LookupTable)
  | 0, _, _, table => .ok (true, table)
  | remaining + 1, i, offset, table => do
      let host ← readArray data offset MAX_HOST_LEN
      let offset := offset + MAX_HOST_LEN
      let port ← readArray data offset 4
      let offset := offset + 4
      let hash ← readArray data offset HASH_SIZE
      let offset := offset + HASH_SIZE
      match createNode (node i) host.val (portOfBytes port.val) hash with
      | none => return (false, table)
      | some newNode =>
          deserializeLoop node data remaining (i + 1) offset
            { table with head := newNode :: table.head, size := table.size + 1 }

def lookupTableDeserialize (alloc : Allocation) (data : Option Bytes) :
    Exec (Option LookupTable) :=
  match data with
  | none => .ok none
  | some data =>
      if data.length < 8 then .ok none
      else
        match lookupTableCreate alloc with
        | none => .ok none
        | some table => do
            let raw ← readArray data 0 8
            let nodeCount := leValue raw.val
            if data.length < tableBytes nodeCount then
              lookupTableDestroy kind table
              return none
            else
              let table ← table.lock kind
              let (complete, table) ← deserializeLoop alloc.node data nodeCount 0 8 table
              let table ← table.unlock kind
              if complete then
                return some table
              else
                lookupTableDestroy kind table
                return none

/-! ### Printing -/

def printNode (index : Nat) (info : NodeInfo) : Bytes :=
  ascii "Node " ++ decimal index ++ ascii ":\n" ++
  ascii "  Host: " ++ cstr info.host ++ ascii "\n" ++
  ascii "  Port: " ++ signedDecimal info.port.toInt ++ ascii "\n" ++
  ascii "  Hash: " ++ info.hash.val.flatMap lowerHex ++ ascii "\n"

def printLoop (index : Nat) : List NodeInfo → Bytes
  | [] => []
  | current :: next => printNode index current ++ printLoop (index + 1) next

def lookupTablePrint (table : LookupTable) : Exec (Bytes × LookupTable) := do
  let table ← table.lock kind
  let text := ascii "Lookup Table (" ++ decimal table.size ++ ascii " nodes):\n" ++
    ascii "---------------------------\n" ++ printLoop 1 table.head
  let table ← table.unlock kind
  return (text, table)

/-! ### The public interface -/

/-- A call of a public operation.  Pointer arguments may be NULL. -/
inductive TableOp where
  | add (malloc : Bool) (host : Option CString) (port : Int32) (hash : Option Hash)
  | remove (host : Option CString) (port : Int32)
  | removeByHash (hash : Option Hash)
  | find (host : Option CString) (port : Int32)
  | findByHash (hash : Option Hash)
  | serializedSize
  | serialize (buffer : Option Bytes) (bufferSize : Nat)
  | deserialize (alloc : Allocation) (data : Option Bytes)
  | size
  | print

inductive TableReply where
  | code (value : Int)
  | node (info : Option NodeInfo)
  | count (value : Nat)
  | serialized (value : Int) (buffer : Option Bytes)
  | table (table : Option LookupTable)
  | printed (text : Bytes)

def tableStep (table : LookupTable) : TableOp → Exec (TableReply × LookupTable)
  | .add malloc host port hash => do
      let (value, table) ← lookupTableAdd kind malloc table host port hash
      return (.code value, table)
  | .remove host port => do
      let (value, table) ← lookupTableRemove kind table host port
      return (.code value, table)
  | .removeByHash hash => do
      let (value, table) ← lookupTableRemoveByHash kind table hash
      return (.code value, table)
  | .find host port => do
      let (info, table) ← lookupTableFind kind table host port
      return (.node info, table)
  | .findByHash hash => do
      let (info, table) ← lookupTableFindByHash kind table hash
      return (.node info, table)
  | .serializedSize => do
      let (value, table) ← lookupTableSerializedSize kind table
      return (.count value, table)
  | .serialize buffer bufferSize => do
      let ((value, buffer), table) ← lookupTableSerialize kind table buffer bufferSize
      return (.serialized value buffer, table)
  | .deserialize alloc data => do
      let made ← lookupTableDeserialize kind alloc data
      return (.table made, table)
  | .size => do
      let (value, table) ← lookupTableSize kind table
      return (.count value, table)
  | .print => do
      let (text, table) ← lookupTablePrint kind table
      return (.printed text, table)

/-- What an operation returns for a NULL table: the `!table` case of its guard. -/
def nullReply : TableOp → Exec TableReply
  | .add .. | .remove .. | .removeByHash .. => .ok (.code (-1))
  | .find .. | .findByHash .. => .ok (.node none)
  | .serializedSize | .size => .ok (.count 0)
  | .serialize buffer _ => .ok (.serialized (-1) buffer)
  | .deserialize alloc data => do
      let made ← lookupTableDeserialize kind alloc data
      return .table made
  | .print => .ok (.printed [])

def callTable (table : Option LookupTable) (op : TableOp) :
    Exec (TableReply × Option LookupTable) :=
  match table with
  | some table => do
      let (reply, table) ← tableStep kind table op
      return (reply, some table)
  | none => do
      let reply ← nullReply kind op
      return (reply, none)

end Operations

end Cdht.PeerTable
