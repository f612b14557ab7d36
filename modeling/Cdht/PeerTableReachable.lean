/-
  Cdht/PeerTableReachable.lean
  ============================
  **The tables that public operations reach, and adding a peer to one.**

  A reachable table was created, or deserialized from any bytes, and has then been
  through any calls of the public interface.  Its mutex is free and its counter is
  the length of its chain (`Reachable.counted`), whatever the calls were.

  On such a table an add should be effective, so that the peer is found afterwards,
  and idempotent.  The three functions involved do not agree on what a host is:
  `lookup_table_add` and `lookup_table_find` compare the caller's string with the
  stored one, of which `create_node` keeps 45 bytes.
-/
import Cdht.PeerTableUniqueness

namespace Cdht.PeerTableReachable

open Cdht.Memory Cdht.Machine Cdht.Strings Cdht.PeerTable Cdht.PeerTableUniqueness

/-! ### Reachable tables -/

inductive Made (kind : MutexKind) (table : LookupTable) : Prop where
  | created (alloc : Allocation) (h : lookupTableCreate alloc = some table)
  | deserialized (alloc : Allocation) (data : Bytes)
      (h : lookupTableDeserialize kind alloc (some data) = .ok (some table))

def Reachable (kind : MutexKind) (table : LookupTable) : Prop :=
  ∃ start ops replies, Made kind start ∧ run (tableStep kind) start ops = .ok (replies, table)

theorem Made.counted {kind : MutexKind} {table : LookupTable} (h : Made kind table) :
    Counted table := by
  cases h with
  | created alloc h =>
    obtain rfl := lookupTableCreate_eq_some h
    exact ⟨rfl, rfl⟩
  | deserialized alloc data h =>
    obtain ⟨rfl, hfits⟩ := eq_tableOf_of_deserialize h
    exact counted_tableOf hfits

/-- A serialization that returns leaves the table as it is. -/
theorem lookupTableSerialize_table {kind : MutexKind} {table next : LookupTable}
    (hfree : table.mutex = .free) {buffer : Option Bytes} {bufferSize : Nat}
    {answer : Int × Option Bytes}
    (h : lookupTableSerialize kind table buffer bufferSize = .ok (answer, next)) :
    next = table := by
  rcases buffer with _ | buffer
  · cases h
    rfl
  cases kind with
  | normal =>
    rw [lookupTableSerialize_deadlocks hfree] at h
    cases h
  | transparent =>
    rw [lookupTableSerialize_transparent hfree] at h
    split at h
    · cases h
      rfl
    · obtain ⟨counted, -, h⟩ := bind_eq_ok h
      obtain ⟨filled, -, h⟩ := bind_eq_ok h
      cases h
      rfl

theorem tableStep_counted (kind : MutexKind) (table : LookupTable) (op : TableOp)
    (reply : TableReply) (next : LookupTable) (h : Counted table)
    (hstep : tableStep kind table op = .ok (reply, next)) : Counted next := by
  cases op with
  | add malloc host port hash =>
    obtain ⟨⟨value, table'⟩, hadd, hdone⟩ := bind_eq_ok hstep
    cases hdone
    exact counted_of_add h hadd
  | remove host port =>
    obtain ⟨⟨value, table'⟩, hremove, hdone⟩ := bind_eq_ok hstep
    cases hdone
    exact counted_of_remove h hremove
  | removeByHash hash =>
    obtain ⟨⟨value, table'⟩, hremove, hdone⟩ := bind_eq_ok hstep
    cases hdone
    exact counted_of_removeByHash h hremove
  | find host port =>
    obtain ⟨info, hfind⟩ := lookupTableFind_returns h.free kind host port
    rw [tableStep, hfind] at hstep
    cases hstep
    exact h
  | findByHash hash =>
    obtain ⟨info, hfind⟩ := lookupTableFindByHash_returns h.free kind hash
    rw [tableStep, hfind] at hstep
    cases hstep
    exact h
  | serializedSize =>
    rw [tableStep, lookupTableSerializedSize_eq kind h.free] at hstep
    cases hstep
    exact h
  | serialize buffer bufferSize =>
    obtain ⟨⟨answer, table'⟩, hwrite, hdone⟩ := bind_eq_ok hstep
    cases hdone
    rw [lookupTableSerialize_table h.free hwrite]
    exact h
  | deserialize alloc data =>
    obtain ⟨made, -, hdone⟩ := bind_eq_ok hstep
    cases hdone
    exact h
  | size =>
    rw [tableStep, lookupTableSize_eq kind h.free] at hstep
    cases hstep
    exact h
  | print =>
    obtain ⟨text, hprint⟩ := lookupTablePrint_eq kind h.free
    rw [tableStep, hprint] at hstep
    cases hstep
    exact h

/-- **The counter of a reachable table is the length of its chain**, and its mutex is
    free. -/
theorem Reachable.counted {kind : MutexKind} {table : LookupTable} (h : Reachable kind table) :
    Counted table := by
  obtain ⟨start, ops, replies, hmade, hrun⟩ := h
  exact run_invariant (tableStep kind) Counted (tableStep_counted kind) ops start replies table
    hmade.counted hrun

/-! ### Adding a peer -/

/-- If `lookup_table_add` answers 0 or 1, the peer is found and has the port asked for,
    and the same call answers 0 and leaves the table as it is. -/
def AddTakesEffect (kind : MutexKind) (table : LookupTable) (host : CString) (port : Int32)
    (hash : Hash) : Prop :=
  ∀ malloc value table',
    lookupTableAdd kind malloc table (some host) port (some hash) = .ok (value, table') →
    value = 0 ∨ value = 1 →
    (∃ info, lookupTableFind kind table' (some host) port = .ok (some info, table') ∧
      info.port = port) ∧
    ∀ malloc', lookupTableAdd kind malloc' table' (some host) port (some hash) = .ok (0, table')

/-- A peer that is in the chain is found, and is not added again. -/
theorem find_and_add_of_mem {kind : MutexKind} {table : LookupTable} (hfree : table.mutex = .free)
    {host : CString} {port : Int32} {info : NodeInfo} (hmem : info ∈ table.head)
    (hpeer : info.peer = (host, port)) :
    (∃ found, lookupTableFind kind table (some host) port = .ok (some found, table) ∧
      found.port = port) ∧
    ∀ malloc hash,
      lookupTableAdd kind malloc table (some host) port (some hash) = .ok (0, table) := by
  have hmatch : peerMatches host port info = true := (peerMatches_iff host port info).mpr hpeer
  constructor
  · rcases hfind : table.head.find? (peerMatches host port) with _ | found
    · exact absurd hmatch (List.find?_eq_none.mp hfind info hmem)
    · refine ⟨found, ?_, ?_⟩
      · rw [lookupTableFind, findMatching_eq kind hfree, hfind]
      · have hfound := (peerMatches_iff host port found).mp (List.find?_some hfind)
        exact congrArg Prod.snd hfound
  · intro malloc hash
    rw [lookupTableAdd_eq kind hfree, if_pos (List.any_eq_true.mpr ⟨info, hmem, hmatch⟩)]

/-- After an add that answers 0 or 1, the cut copy of the host is in the chain; for a
    host that fits, that is the host. -/
theorem mem_of_add {kind : MutexKind} {table table' : LookupTable} (hfree : table.mutex = .free)
    {malloc : Bool} {host : CString} (hfits : host.strlen ≤ MAX_HOST_LEN - 1) {port : Int32}
    {hash : Hash} {value : Int}
    (hadd : lookupTableAdd kind malloc table (some host) port (some hash) = .ok (value, table'))
    (hvalue : value = 0 ∨ value = 1) : ∃ info ∈ table'.head, info.peer = (host, port) := by
  rw [lookupTableAdd_eq kind hfree] at hadd
  split at hadd
  · rename_i hany
    cases hadd
    obtain ⟨info, hmem, hmatch⟩ := List.any_eq_true.mp hany
    exact ⟨info, hmem, (peerMatches_iff host port info).mp hmatch⟩
  · cases malloc with
    | false =>
      cases hadd
      rcases hvalue with hvalue | hvalue
      · cases hvalue
      · cases hvalue
    | true =>
      obtain ⟨info, hcreate, hpeer, -⟩ := createNode_true host port hash
      rw [hcreate] at hadd
      cases hadd
      rw [truncated_eq_self hfits] at hpeer
      exact ⟨info, List.mem_cons_self, hpeer⟩

/-- **A host that does not fit is added and not found.** -/
theorem overlong_added_not_found {kind : MutexKind} {table : LookupTable}
    (hfree : table.mutex = .free) {host : CString} (hlong : MAX_HOST_LEN - 1 < host.strlen)
    (port : Int32) (hash : Hash) :
    ∃ table', lookupTableAdd kind true table (some host) port (some hash) = .ok (1, table') ∧
      lookupTableFind kind table' (some host) port = .ok (none, table') := by
  have hnever : ∀ info : NodeInfo, ¬ peerMatches host port info = true := by
    intro info hmatch
    have hshort := strlen_peer info
    rw [(peerMatches_iff host port info).mp hmatch] at hshort
    exact absurd hshort (Nat.not_le.mpr hlong)
  obtain ⟨info, hcreate, -, -⟩ := createNode_true host port hash
  refine ⟨added table info, ?_, ?_⟩
  · have hnone : ¬ table.head.any (peerMatches host port) = true := by
      rw [List.any_eq_true]
      rintro ⟨other, -, hmatch⟩
      exact hnever other hmatch
    rw [lookupTableAdd_eq kind hfree, if_neg hnone, hcreate]
  · have hnone : (added table info).head.find? (peerMatches host port) = none :=
      List.find?_eq_none.mpr fun other _ => hnever other
    have hfree' : (added table info).mutex = .free := hfree
    rw [lookupTableFind, findMatching_eq kind hfree', hnone]

/-- **Adding is effective and idempotent exactly for hosts of at most 45 bytes.**  On
    every reachable table, for every port and hash: after an add that answers 0 or 1
    the peer is found and adding it again changes nothing, if and only if the host
    fits in its field. -/
theorem add_takes_effect_iff (kind : MutexKind) (table : LookupTable)
    (hreachable : Reachable kind table) (host : CString) (port : Int32) (hash : Hash) :
    AddTakesEffect kind table host port hash ↔ host.strlen ≤ 45 := by
  have hfree := hreachable.counted.free
  constructor
  · intro heffect
    by_contra hlong
    obtain ⟨table', hadd, hfind⟩ :=
      @overlong_added_not_found kind table hfree host (Nat.lt_of_not_le hlong) port hash
    obtain ⟨⟨info, hfound, -⟩, -⟩ := heffect true 1 table' hadd (Or.inr rfl)
    rw [hfind] at hfound
    cases hfound
  · intro hfits malloc value table' hadd hvalue
    obtain ⟨info, hmem, hpeer⟩ := mem_of_add hfree hfits hadd hvalue
    have hfree' : table'.mutex = .free := (counted_of_add hreachable.counted hadd).free
    obtain ⟨hfind, hagain⟩ := @find_and_add_of_mem kind table' hfree' host port info hmem hpeer
    exact ⟨hfind, fun malloc' => hagain malloc' hash⟩

theorem reachable_new (kind : MutexKind) : Reachable kind ⟨[], .free, 0⟩ :=
  ⟨⟨[], .free, 0⟩, [], [], .created .succeeds rfl, rfl⟩

theorem add_takes_effect_shortHost :
    Reachable .normal ⟨[], .free, 0⟩ ∧
      AddTakesEffect .normal ⟨[], .free, 0⟩ (hostOfLength 45) 1 (sampleHash 7) :=
  ⟨reachable_new .normal,
    (add_takes_effect_iff .normal ⟨[], .free, 0⟩ (reachable_new .normal) (hostOfLength 45) 1
      (sampleHash 7)).mpr (by decide)⟩

/-- A host of 46 bytes on a new table: the add answers 1, the peer is not found, and
    the second add stores it once more. -/
theorem add_loses_overlong_host :
    Reachable .normal ⟨[], .free, 0⟩ ∧
      (∃ table', lookupTableAdd .normal true ⟨[], .free, 0⟩ (some (hostOfLength 46)) 1
          (some (sampleHash 7)) = .ok (1, table') ∧
        lookupTableFind .normal table' (some (hostOfLength 46)) 1 = .ok (none, table') ∧
        ∃ table'', lookupTableAdd .normal true table' (some (hostOfLength 46)) 1
            (some (sampleHash 7)) = .ok (1, table'') ∧ table''.size = 2) ∧
      ¬ AddTakesEffect .normal ⟨[], .free, 0⟩ (hostOfLength 46) 1 (sampleHash 7) := by
  refine ⟨reachable_new .normal, ⟨_, rfl, rfl, _, rfl, rfl⟩, ?_⟩
  intro heffect
  obtain ⟨⟨info, hfound, -⟩, -⟩ := heffect true 1 _ rfl (Or.inr rfl)
  cases hfound

end Cdht.PeerTableReachable
