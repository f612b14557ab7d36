/-
  Cdht/PeerTableUniqueness.lean
  =============================
  **When the peers of a table are pairwise distinct.**

  `lookup_table_add` refuses a peer that is already there, but it compares the
  caller's host with stored hosts, which are cut to 45 bytes: a longer host never
  equals a stored one, and a second add of it stores the same 45 bytes again.
  `lookup_table_deserialize` prepends every record without looking.  This file
  shows that these are the only two ways to lose uniqueness.  `Machine.along_iff`
  turns the exact condition for one call into the exact condition for a run.
-/
import Cdht.Machine
import Cdht.PeerTableLocking

namespace Cdht.PeerTableUniqueness

open Cdht.Memory Cdht.Machine Cdht.Strings Cdht.PeerTable

/-! ### Runs of updates -/

/-- A call that may change a table, with any arguments, NULL pointers and failing
    allocations included. -/
inductive UpdateOp where
  | add (malloc : Bool) (host : Option CString) (port : Int32) (hash : Option Hash)
  | remove (host : Option CString) (port : Int32)
  | removeByHash (hash : Option Hash)
deriving DecidableEq

def updateStep : Step LookupTable UpdateOp Int
  | table, .add malloc host port hash => lookupTableAdd .normal malloc table host port hash
  | table, .remove host port => lookupTableRemove .normal table host port
  | table, .removeByHash hash => lookupTableRemoveByHash .normal table hash

inductive Origin where
  | created (alloc : Allocation)
  | deserialized (alloc : Allocation) (data : Bytes)

def Origin.Makes : Origin → LookupTable → Prop
  | .created alloc, table => lookupTableCreate alloc = some table
  | .deserialized alloc data, table =>
      lookupTableDeserialize .normal alloc (some data) = .ok (some table)

/-! ### The property and the conditions -/

/-- The counter is the number of nodes, no two nodes have the same host string and
    port, and a peer that was removed is not found any more. -/
structure UniquePeers (table : LookupTable) : Prop where
  free : table.mutex = .free
  size : table.size = table.head.length
  distinct : (table.head.map NodeInfo.peer).Nodup
  removed_gone : ∀ host port table', lookupTableRemove .normal table (some host) port =
    .ok (1, table') → lookupTableFind .normal table' (some host) port = .ok (none, table')

/-- The records of the byte string, if there is one, are pairwise distinct as peers. -/
def Origin.DistinctRecords : Origin → Prop
  | .created _ => True
  | .deserialized _ data => ((records data (nodeCount data) 8).map NodeInfo.peer).Nodup

/-- The call does not store the cut copy of an overlong host that is already there. -/
def KeepsUnique (table : LookupTable) : UpdateOp → Prop
  | .add true (some host) port (some _) =>
      MAX_HOST_LEN - 1 < host.strlen → ∀ info ∈ table.head, info.peer ≠ (truncated host, port)
  | _ => True

/-! ### One call -/

structure Counted (table : LookupTable) : Prop where
  free : table.mutex = .free
  size : table.size = table.head.length

theorem counted_removed {table : LookupTable} (h : Counted table) (isMatch : NodeInfo → Bool) :
    Counted (removed isMatch table) := by
  refine ⟨h.free, ?_⟩
  show (if table.head.any isMatch then table.size - 1 else table.size) =
    (table.head.eraseP isMatch).length
  rw [List.length_eraseP, h.size]

theorem counted_added {table : LookupTable} (h : Counted table) (info : NodeInfo) :
    Counted (added table info) := by
  refine ⟨h.free, ?_⟩
  show table.size + 1 = (info :: table.head).length
  rw [List.length_cons, h.size]

section CountedCalls

variable {kind : MutexKind} {table next : LookupTable} {value : Int} (h : Counted table)

include h

theorem counted_of_add {malloc : Bool} {host : Option CString} {port : Int32} {hash : Option Hash}
    (hadd : lookupTableAdd kind malloc table host port hash = .ok (value, next)) :
    Counted next := by
  rcases host with _ | host
  · cases hadd
    exact h
  rcases hash with _ | hash
  · cases hadd
    exact h
  rw [lookupTableAdd_eq kind h.free] at hadd
  split at hadd
  · cases hadd
    exact h
  · rcases hcreate : createNode malloc host.chars port hash with _ | newNode
    · rw [hcreate] at hadd
      cases hadd
      exact h
    · rw [hcreate] at hadd
      cases hadd
      exact counted_added h newNode

theorem counted_of_removeMatching {isMatch : NodeInfo → Bool}
    (hremove : removeMatching kind isMatch table = .ok (value, next)) : Counted next := by
  rw [removeMatching_eq kind h.free] at hremove
  cases hremove
  exact counted_removed h isMatch

theorem counted_of_remove {host : Option CString} {port : Int32}
    (hremove : lookupTableRemove kind table host port = .ok (value, next)) : Counted next := by
  rcases host with _ | host
  · cases hremove
    exact h
  · exact counted_of_removeMatching h hremove

theorem counted_of_removeByHash {hash : Option Hash}
    (hremove : lookupTableRemoveByHash kind table hash = .ok (value, next)) : Counted next := by
  rcases hash with _ | hash
  · cases hremove
    exact h
  · exact counted_of_removeMatching h hremove

end CountedCalls

theorem find_after_remove {table table' : LookupTable} {host : CString} {port : Int32}
    (hfree : table.mutex = .free) (hdistinct : (table.head.map NodeInfo.peer).Nodup)
    (hremove : lookupTableRemove .normal table (some host) port = .ok (1, table')) :
    lookupTableFind .normal table' (some host) port = .ok (none, table') := by
  rw [lookupTableRemove, removeMatching_eq .normal hfree, Except.ok.injEq, Prod.mk.injEq] at hremove
  obtain ⟨hany, rfl⟩ := hremove
  have hgone : (removed (peerMatches host port) table).head.find? (peerMatches host port) = none := by
    rcases hfind : table.head.find? (peerMatches host port) with _ | info
    · exfalso
      have hnone : ¬ table.head.any (peerMatches host port) = true := by
        rw [List.any_eq_true]
        rintro ⟨info, hinfo, hmatch⟩
        exact List.find?_eq_none.mp hfind info hinfo hmatch
      rw [if_neg hnone] at hany
      cases hany
    · obtain ⟨before, after, -, herase, hothers⟩ := eraseP_of_find hdistinct hfind
      have hinfo : info.peer = (host, port) := (peerMatches_iff host port info).mp
        (List.find?_some hfind)
      show (table.head.eraseP (peerMatches host port)).find? (peerMatches host port) = none
      rw [herase, List.find?_eq_none]
      intro other hother hmatch
      apply hothers other hother
      rw [(peerMatches_iff host port other).mp hmatch, hinfo]
  rw [lookupTableFind, findMatching_eq]
  · rw [hgone]
  · exact hfree

/-- Distinct peers are what matters: the rest of the property follows. -/
theorem uniquePeers_iff {table : LookupTable} (h : Counted table) :
    UniquePeers table ↔ (table.head.map NodeInfo.peer).Nodup := by
  constructor
  · intro hunique
    exact hunique.distinct
  · intro hdistinct
    exact ⟨h.free, h.size, hdistinct, fun host port table' => find_after_remove h.free hdistinct⟩

theorem UniquePeers.counted {table : LookupTable} (h : UniquePeers table) : Counted table :=
  ⟨h.free, h.size⟩

theorem uniquePeers_removed {table : LookupTable} (h : UniquePeers table)
    (isMatch : NodeInfo → Bool) : UniquePeers (removed isMatch table) := by
  apply (uniquePeers_iff (counted_removed h.counted isMatch)).mpr
  exact h.distinct.sublist (List.eraseP_sublist.map NodeInfo.peer)

theorem uniquePeers_added_iff {table : LookupTable} (h : UniquePeers table) (info : NodeInfo) :
    UniquePeers (added table info) ↔ ∀ other ∈ table.head, other.peer ≠ info.peer := by
  rw [uniquePeers_iff (counted_added h.counted info)]
  show (info.peer :: table.head.map NodeInfo.peer).Nodup ↔ _
  rw [List.nodup_cons, List.mem_map]
  constructor
  · rintro ⟨hnew, -⟩ other hother heq
    exact hnew ⟨other, hother, heq⟩
  · intro hnew
    refine ⟨?_, h.distinct⟩
    rintro ⟨other, hother, heq⟩
    exact hnew other hother heq

/-- **An add keeps the property exactly when it does not store a cut host again.** -/
theorem uniquePeers_add_iff {table next : LookupTable} (h : UniquePeers table) (host : CString)
    (port : Int32) (hash : Hash) {value : Int}
    (hadd : lookupTableAdd .normal true table (some host) port (some hash) = .ok (value, next)) :
    UniquePeers next ↔ KeepsUnique table (.add true (some host) port (some hash)) := by
  obtain ⟨info, hcreate, hpeer, -⟩ := createNode_true host port hash
  rw [lookupTableAdd_eq .normal h.free, hcreate] at hadd
  have hany : table.head.any (peerMatches host port) = true ↔
      ∃ other ∈ table.head, other.peer = (host, port) := by
    rw [List.any_eq_true]
    simp only [peerMatches_iff]
  unfold KeepsUnique
  by_cases hfound : table.head.any (peerMatches host port) = true
  · rw [if_pos hfound] at hadd
    cases hadd
    constructor
    · intro _ hlong
      -- an overlong host never equals a stored one
      obtain ⟨other, hother, heq⟩ := hany.mp hfound
      have hshort := strlen_peer other
      rw [heq] at hshort
      exact absurd hshort (Nat.not_le.mpr hlong)
    · intro _
      exact h
  · rw [if_neg hfound] at hadd
    cases hadd
    rw [uniquePeers_added_iff h, hpeer]
    constructor
    · intro hnew _
      exact hnew
    · intro hkeeps other hother heq
      by_cases hlong : MAX_HOST_LEN - 1 < host.strlen
      · exact hkeeps hlong other hother heq
      · rw [truncated_eq_self (Nat.le_of_not_lt hlong)] at heq
        exact hfound (hany.mpr ⟨other, hother, heq⟩)

theorem updateStep_returns (table : LookupTable) (op : UpdateOp) (h : UniquePeers table) :
    ∃ value next, updateStep table op = .ok (value, next) := by
  cases op with
  | add malloc host port hash =>
    obtain ⟨value, next, hrun, -⟩ := lookupTableAdd_returns h.free malloc host port hash
    exact ⟨value, next, hrun⟩
  | remove host port =>
    obtain ⟨value, next, hrun, -⟩ := lookupTableRemove_returns h.free host port
    exact ⟨value, next, hrun⟩
  | removeByHash hash =>
    obtain ⟨value, next, hrun, -⟩ := lookupTableRemoveByHash_returns h.free hash
    exact ⟨value, next, hrun⟩

theorem updateStep_counted (table : LookupTable) (op : UpdateOp) (value : Int)
    (next : LookupTable) (h : Counted table) (hstep : updateStep table op = .ok (value, next)) :
    Counted next := by
  cases op with
  | add malloc host port hash => exact counted_of_add h hstep
  | remove host port => exact counted_of_remove h hstep
  | removeByHash hash => exact counted_of_removeByHash h hstep

/-- **One update keeps the property exactly under its condition.** -/
theorem updateStep_unique_iff (table : LookupTable) (op : UpdateOp) (value : Int)
    (next : LookupTable) (h : UniquePeers table)
    (hstep : updateStep table op = .ok (value, next)) :
    UniquePeers next ↔ KeepsUnique table op := by
  have hunchanged : next = table → (UniquePeers next ↔ True) := by
    rintro rfl
    exact iff_of_true h trivial
  cases op with
  | add malloc host port hash =>
    rcases host with _ | host
    · cases hstep
      cases malloc with
      | true => exact hunchanged rfl
      | false => exact hunchanged rfl
    rcases hash with _ | hash
    · cases hstep
      cases malloc with
      | true => exact hunchanged rfl
      | false => exact hunchanged rfl
    cases malloc with
    | true => exact uniquePeers_add_iff h host port hash hstep
    | false =>
      rw [updateStep, lookupTableAdd_eq .normal h.free] at hstep
      split at hstep
      · cases hstep
        exact hunchanged rfl
      · cases hstep
        exact hunchanged rfl
  | remove host port =>
    rcases host with _ | host
    · cases hstep
      exact hunchanged rfl
    · rw [updateStep, lookupTableRemove, removeMatching_eq .normal h.free] at hstep
      cases hstep
      exact iff_of_true (uniquePeers_removed h _) trivial
  | removeByHash hash =>
    rcases hash with _ | hash
    · cases hstep
      exact hunchanged rfl
    · rw [updateStep, lookupTableRemoveByHash, removeMatching_eq .normal h.free] at hstep
      cases hstep
      exact iff_of_true (uniquePeers_removed h _) trivial

/-! ### The table a run starts from -/

theorem counted_tableOf {data : Bytes} (hfits : announcedSize data ≤ data.length) :
    Counted (tableOf data) := by
  refine ⟨rfl, ?_⟩
  show nodeCount data = (records data (nodeCount data) 8).reverse.length
  rw [List.length_reverse, length_records]
  rw [announcedSize, Nat.mul_comm] at hfits
  exact hfits

theorem origin_unique_iff {origin : Origin} {table : LookupTable} (hmakes : origin.Makes table) :
    UniquePeers table ↔ origin.DistinctRecords := by
  cases origin with
  | created alloc =>
    obtain rfl := lookupTableCreate_eq_some hmakes
    have hcounted : Counted ⟨[], .free, 0⟩ := ⟨rfl, rfl⟩
    exact iff_of_true ((uniquePeers_iff hcounted).mpr List.nodup_nil) trivial
  | deserialized alloc data =>
    obtain ⟨rfl, hfits⟩ := eq_tableOf_of_deserialize hmakes
    rw [uniquePeers_iff (counted_tableOf hfits)]
    show ((records data (nodeCount data) 8).reverse.map NodeInfo.peer).Nodup ↔ _
    rw [List.map_reverse, List.nodup_reverse]
    rfl

/-! ### Whole runs -/

/-- **Peers stay distinct, exactly along the runs that never store a peer twice.**
    For every table made by `lookup_table_create` or by `lookup_table_deserialize` of
    any accepted bytes, and every sequence of updates with any arguments: in every
    state of the run the counter is the number of nodes, no two nodes share host and
    port, and a removed peer is not found again, if and only if the bytes hold no two
    records for one peer and no call adds a host longer than 45 bytes whose first 45
    bytes are stored with that port already. -/
theorem peers_unique_along_iff (origin : Origin) (table : LookupTable)
    (hmakes : origin.Makes table) (ops : List UpdateOp) :
    Along updateStep UniquePeers table ops ↔
      origin.DistinctRecords ∧ StepsMeet updateStep KeepsUnique table ops := by
  rw [along_iff updateStep UniquePeers KeepsUnique updateStep_returns updateStep_unique_iff,
    origin_unique_iff hmakes]

def hostOfLength (n : Nat) : CString := ⟨List.replicate n 97, fun h => by
  rw [List.mem_replicate] at h
  exact absurd h.2 (by decide)⟩

def addHost (n : Nat) : UpdateOp := .add true (some (hostOfLength n)) 1 (some (sampleHash 7))

theorem peers_unique_along_short_host :
    Along updateStep UniquePeers ⟨[], .free, 0⟩ [addHost 45, addHost 45] := by
  apply (peers_unique_along_iff (.created .succeeds) ⟨[], .free, 0⟩ rfl _).mpr
  refine ⟨trivial, ?_, fun _ _ _ => ⟨?_, fun _ _ _ => trivial⟩⟩
  · exact fun hlong => absurd hlong (by decide)
  · exact fun hlong => absurd hlong (by decide)

def equalRecords : Bytes := [2, 0, 0, 0, 0, 0, 0, 0] ++ List.replicate 140 0

/-- A host of 46 bytes added twice is stored twice, and two equal records are both
    taken over: either way two nodes have the same peer. -/
theorem overlong_host_stored_twice :
    (Origin.created .succeeds).Makes ⟨[], .free, 0⟩ ∧
    ¬ Along updateStep UniquePeers ⟨[], .free, 0⟩ [addHost 46, addHost 46] ∧
    (∃ table, (Origin.deserialized .succeeds equalRecords).Makes table ∧
      ¬ Along updateStep UniquePeers table []) := by
  refine ⟨rfl, ?_, tableOf equalRecords, ?_, ?_⟩
  · rintro ⟨-, hsecond⟩
    obtain ⟨-, hlast⟩ := hsecond _ _ rfl
    exact absurd (hlast _ _ rfl).distinct (by decide)
  · exact deserialize_of_fits .normal (by decide +kernel)
  · intro h
    exact absurd h.distinct (by decide +kernel)

end Cdht.PeerTableUniqueness
