/-
  Cdht/PeerTableLocking.lean
  ==========================
  **Lock discipline of the peer table.**

  The table's mutex has default attributes, so a thread that locks it twice waits
  for itself.  Nine of the ten public operations lock and unlock it in pairs on
  every path, early returns and failed allocations included.  The tenth,
  `lookup_table_serialize`, takes the lock and then calls
  `lookup_table_serialized_size`, which takes it again.
-/
import Cdht.Machine
import Cdht.PeerTableWire

namespace Cdht.PeerTable

open Cdht.Memory Cdht.Machine Cdht.Strings

def Idle (table : Option LookupTable) : Prop := ∀ object ∈ table, object.mutex = .free

def TableReply.Idle : TableReply → Prop
  | .table made => PeerTable.Idle made
  | _ => True

/-- **The discipline**, as a property of the outcome of a call: it does not wait for
    itself, does not unlock a free mutex, and returns with every mutex free. -/
structure LockDisciplined (outcome : Exec (TableReply × Option LookupTable)) : Prop where
  no_selfDeadlock : outcome ≠ .error .selfDeadlock
  no_unlockOfFree : outcome ≠ .error .unlockOfFree
  returns_free : ∀ reply table, outcome = .ok (reply, table) → Idle table ∧ reply.Idle

/-- The call locks the mutex while it holds it: serialization of a table into a
    buffer, neither of them NULL. -/
def LocksTwice (table : Option LookupTable) : TableOp → Prop
  | .serialize buffer _ => table.isSome ∧ buffer.isSome
  | _ => False

theorem idle_some {table : LookupTable} : Idle (some table) ↔ table.mutex = .free := by
  unfold Idle
  simp

theorem tableOf_idle (data : Bytes) : Idle (some (tableOf data)) := idle_some.mpr rfl

/-! ### One call -/

section OneCall

variable {table : LookupTable} (hfree : table.mutex = .free)

include hfree

theorem lookupTableAdd_returns (malloc : Bool) (host : Option CString) (port : Int32)
    (hash : Option Hash) :
    ∃ value table', lookupTableAdd .normal malloc table host port hash = .ok (value, table') ∧
      table'.mutex = .free := by
  rcases host with _ | host
  · exact ⟨-1, table, rfl, hfree⟩
  rcases hash with _ | hash
  · exact ⟨-1, table, rfl, hfree⟩
  rw [lookupTableAdd_eq .normal hfree]
  split
  · exact ⟨0, table, rfl, hfree⟩
  · rcases createNode malloc host.chars port hash with _ | newNode
    · exact ⟨-1, table, rfl, hfree⟩
    · exact ⟨1, added table newNode, rfl, hfree⟩

theorem lookupTableRemove_returns (host : Option CString) (port : Int32) :
    ∃ value table', lookupTableRemove .normal table host port = .ok (value, table') ∧
      table'.mutex = .free := by
  rcases host with _ | host
  · exact ⟨-1, table, rfl, hfree⟩
  · exact ⟨_, _, removeMatching_eq .normal hfree _, hfree⟩

theorem lookupTableRemoveByHash_returns (hash : Option Hash) :
    ∃ value table', lookupTableRemoveByHash .normal table hash = .ok (value, table') ∧
      table'.mutex = .free := by
  rcases hash with _ | hash
  · exact ⟨-1, table, rfl, hfree⟩
  · exact ⟨_, _, removeMatching_eq .normal hfree _, hfree⟩

theorem lookupTableFind_returns (kind : MutexKind) (host : Option CString) (port : Int32) :
    ∃ info, lookupTableFind kind table host port = .ok (info, table) := by
  rcases host with _ | host
  · exact ⟨none, rfl⟩
  · exact ⟨_, findMatching_eq kind hfree _⟩

theorem lookupTableFindByHash_returns (kind : MutexKind) (hash : Option Hash) :
    ∃ info, lookupTableFindByHash kind table hash = .ok (info, table) := by
  rcases hash with _ | hash
  · exact ⟨none, rfl⟩
  · exact ⟨_, findMatching_eq kind hfree _⟩

/-- **Serialization waits for itself**, for every table and buffer. -/
theorem lookupTableSerialize_deadlocks (buffer : Bytes) (bufferSize : Nat) :
    lookupTableSerialize .normal table (some buffer) bufferSize = .error .selfDeadlock := by
  obtain ⟨head, mutex, size⟩ := table
  subst hfree
  rfl

end OneCall

theorem lookupTableDeserialize_returns (alloc : Allocation) (data : Option Bytes) :
    (∃ made, lookupTableDeserialize .normal alloc data = .ok made ∧ Idle made) ∨
    ∃ bytes index, data = some bytes ∧ PassesCheck bytes ∧ bytes.length < announcedSize bytes ∧
      lookupTableDeserialize .normal alloc data = .error (.outOfBounds index) := by
  rcases data with _ | bytes
  · left
    exact ⟨none, rfl, by simp [Idle]⟩
  rcases lookupTableDeserialize_cases .normal alloc bytes with
    ⟨-, hnull⟩ | ⟨-, -, htable⟩ | ⟨hpass, hpast, index, -, hfault⟩
  · left
    exact ⟨none, hnull, by simp [Idle]⟩
  · left
    exact ⟨some (tableOf bytes), htable, tableOf_idle bytes⟩
  · right
    exact ⟨bytes, index, rfl, hpass, hpast, hfault⟩

/-- **What a call can do**, where `twice` says that it is a serialization into a buffer
    and `idle` that a state has its mutex free: wait for itself; read outside the data
    it deserializes, if these pass the size check and are too short; or return with every
    mutex free. -/
inductive Outcome {σ : Type} (idle : σ → Prop) (twice : Prop) (op : TableOp) :
    Exec (TableReply × σ) → Prop where
  | waits (htwice : twice) : Outcome idle twice op (.error .selfDeadlock)
  | readsPast (honce : ¬ twice) (alloc : Allocation) (bytes : Bytes) (index : Nat)
      (hop : op = .deserialize alloc (some bytes)) (hpass : PassesCheck bytes)
      (hpast : bytes.length < announcedSize bytes) :
      Outcome idle twice op (.error (.outOfBounds index))
  | returns (honce : ¬ twice) (reply : TableReply) (state : σ) (hidle : idle state)
      (hreply : reply.Idle) : Outcome idle twice op (.ok (reply, state))

theorem tableStep_outcome {table : LookupTable} (hfree : table.mutex = .free) (op : TableOp) :
    Outcome (fun table : LookupTable => table.mutex = .free) (LocksTwice (some table) op) op
      (tableStep .normal table op) := by
  cases op with
  | add malloc host port hash =>
    obtain ⟨value, table', hrun, hmutex⟩ := lookupTableAdd_returns hfree malloc host port hash
    rw [tableStep, hrun]
    exact .returns id (.code value) table' hmutex trivial
  | remove host port =>
    obtain ⟨value, table', hrun, hmutex⟩ := lookupTableRemove_returns hfree host port
    rw [tableStep, hrun]
    exact .returns id (.code value) table' hmutex trivial
  | removeByHash hash =>
    obtain ⟨value, table', hrun, hmutex⟩ := lookupTableRemoveByHash_returns hfree hash
    rw [tableStep, hrun]
    exact .returns id (.code value) table' hmutex trivial
  | find host port =>
    obtain ⟨info, hrun⟩ := lookupTableFind_returns hfree .normal host port
    rw [tableStep, hrun]
    exact .returns id (.node info) table hfree trivial
  | findByHash hash =>
    obtain ⟨info, hrun⟩ := lookupTableFindByHash_returns hfree .normal hash
    rw [tableStep, hrun]
    exact .returns id (.node info) table hfree trivial
  | serializedSize =>
    rw [tableStep, lookupTableSerializedSize_eq .normal hfree]
    exact .returns id (.count (tableBytes table.size)) table hfree trivial
  | serialize buffer bufferSize =>
    rcases buffer with _ | buffer
    · exact .returns (fun h => absurd h.2 (by simp)) (.serialized (-1) none) table hfree trivial
    · rw [tableStep, lookupTableSerialize_deadlocks hfree]
      exact .waits ⟨rfl, rfl⟩
  | deserialize alloc data =>
    rcases lookupTableDeserialize_returns alloc data with
      ⟨made, hrun, hidle⟩ | ⟨bytes, index, rfl, hpass, hpast, hrun⟩
    · rw [tableStep, hrun]
      exact .returns id (.table made) table hfree hidle
    · rw [tableStep, hrun]
      exact .readsPast id alloc bytes index rfl hpass hpast
  | size =>
    rw [tableStep, lookupTableSize_eq .normal hfree]
    exact .returns id (.count table.size) table hfree trivial
  | print =>
    obtain ⟨text, hrun⟩ := lookupTablePrint_eq .normal hfree
    rw [tableStep, hrun]
    exact .returns id (.printed text) table hfree trivial

theorem callTable_outcome {table : Option LookupTable} (hidle : Idle table) (op : TableOp) :
    Outcome Idle (LocksTwice table op) op (callTable .normal table op) := by
  rcases table with _ | table
  · have honce : ¬ LocksTwice none op := by
      cases op with
      | serialize buffer bufferSize => simp [LocksTwice]
      | _ => exact id
    rw [callTable]
    cases op with
    | deserialize alloc data =>
      rcases lookupTableDeserialize_returns alloc data with
        ⟨made, hrun, hmade⟩ | ⟨bytes, index, rfl, hpass, hpast, hrun⟩
      · rw [nullReply, hrun]
        exact .returns honce (.table made) none hidle hmade
      · rw [nullReply, hrun]
        exact .readsPast honce alloc bytes index rfl hpass hpast
    | _ => exact .returns honce _ none hidle trivial
  · have houtcome := tableStep_outcome (idle_some.mp hidle) op
    rw [callTable]
    generalize tableStep .normal table op = result at houtcome
    cases houtcome with
    | waits htwice => exact .waits htwice
    | readsPast honce alloc bytes index hop hpass hpast =>
      exact .readsPast honce alloc bytes index hop hpass hpast
    | returns honce reply table' hmutex hreply =>
      exact .returns honce reply (some table') (idle_some.mpr hmutex) hreply

/-! ### Every call, every reachable table -/

/-- Every table that calls reach from a created one has its mutex free. -/
theorem idle_of_run {alloc : Allocation} {table : LookupTable} {ops : List TableOp}
    {replies : List TableReply} {final : LookupTable}
    (hcreate : lookupTableCreate alloc = some table)
    (hrun : run (tableStep .normal) table ops = .ok (replies, final)) : Idle (some final) := by
  obtain rfl := lookupTableCreate_eq_some hcreate
  apply idle_some.mpr
  refine run_invariant (tableStep .normal) (fun table => table.mutex = .free) ?_
    ops ⟨[], .free, 0⟩ replies final rfl hrun
  intro table op reply next hfree hstep
  have houtcome := tableStep_outcome hfree op
  rw [hstep] at houtcome
  cases houtcome with
  | returns honce reply table' hmutex hreply => exact hmutex

/-- **Lock discipline, exactly where it holds.**  On every table whose mutex is free,
    a call with any arguments is disciplined if and only if it is not a serialization
    of a table into a buffer; such a call also returns, unless it deserializes data that
    pass the size check, which is made modulo 2^64, and are shorter than the records they
    announce. -/
theorem lock_discipline_iff (table : Option LookupTable) (op : TableOp) (hidle : Idle table) :
    (LockDisciplined (callTable .normal table op) ↔ ¬ LocksTwice table op) ∧
    (¬ LocksTwice table op →
      (∃ reply table', callTable .normal table op = .ok (reply, table')) ∨
      ∃ alloc bytes, op = .deserialize alloc (some bytes) ∧ PassesCheck bytes ∧
        bytes.length < announcedSize bytes) := by
  have houtcome := callTable_outcome hidle op
  generalize callTable .normal table op = outcome at houtcome
  cases houtcome with
  | waits htwice =>
    refine ⟨⟨fun h => absurd rfl h.no_selfDeadlock, fun honce => absurd htwice honce⟩, ?_⟩
    intro honce
    exact absurd htwice honce
  | readsPast honce alloc bytes index hop hpass hpast =>
    refine ⟨⟨fun _ => honce, fun _ => ?_⟩, fun _ => .inr ⟨alloc, bytes, hop, hpass, hpast⟩⟩
    exact ⟨by simp, by simp, by simp⟩
  | returns honce reply table' hidle' hreply =>
    refine ⟨⟨fun _ => honce, fun _ => ?_⟩, fun _ => .inl ⟨reply, table', rfl⟩⟩
    refine ⟨by simp, by simp, ?_⟩
    intro reply' table'' heq
    cases heq
    exact ⟨hidle', hreply⟩

/-- A table of one peer, the host `h1` at port 4000. -/
def onePeer : LookupTable :=
  ⟨[⟨storedHost [104, 49], 4000, sampleHash 7, storedHost_storedHost _⟩], .free, 1⟩

theorem lock_discipline_of_removal :
    Idle (some onePeer) ∧
      callTable .normal (some onePeer) (.removeByHash (some (sampleHash 7))) =
        .ok (.code 1, some ⟨[], .free, 0⟩) ∧
      LockDisciplined (callTable .normal (some onePeer) (.removeByHash (some (sampleHash 7)))) := by
  have hidle : Idle (some onePeer) := idle_some.mpr rfl
  refine ⟨hidle, rfl, ?_⟩
  exact (lock_discipline_iff (some onePeer) (.removeByHash (some (sampleHash 7))) hidle).1.mpr id

theorem serialize_new_table_deadlocks :
    lookupTableCreate .succeeds = some ⟨[], .free, 0⟩ ∧ Idle (some ⟨[], .free, 0⟩) ∧
      callTable .normal (some ⟨[], .free, 0⟩) (.serialize (some (List.replicate 8 0)) 8) =
        .error .selfDeadlock ∧
      ¬ LockDisciplined
        (callTable .normal (some ⟨[], .free, 0⟩) (.serialize (some (List.replicate 8 0)) 8)) :=
  ⟨rfl, idle_some.mpr rfl, rfl, fun h => h.no_selfDeadlock rfl⟩

end Cdht.PeerTable
