/-
  Cdht/PeerTableRefinement.lean
  =============================
  **The peer table is a finite map with insertion recency.**

  The abstract table is a `RecencyMap`: live peers, the hash of each, and the time
  it was added.  The chain holds the live peers newest first, so the first match
  for a hash is the newest peer that carries it.  `Represents` is that picture as
  an invariant; every operation keeps it and answers as the map does
  (`peerStep_refines`), and `Machine.run_refines` gives whole runs.

  Uniqueness is kept on (host, port) while a removal by hash selects a node through
  its hash: both removals unlink the first match of a predicate, and
  `represents_unlink` is the one fact about that.
-/
import Cdht.Machine
import Cdht.PeerTableSpec
import Cdht.RecencyMap

namespace Cdht.PeerTableRefinement

open Cdht.Memory Cdht.Machine Cdht.Strings Cdht.PeerTable Cdht.RecencyMap

/-! ### Runs -/

abbrev Peer := CString × Int32

/-- A call with valid pointers, on a table whose allocations succeed. -/
inductive PeerOp where
  | add (peer : Peer) (hash : Hash)
  | remove (peer : Peer)
  | removeByHash (hash : Hash)
  | find (peer : Peer)
  | findByHash (hash : Hash)
  | size
deriving DecidableEq

inductive PeerReply where
  | code (value : Int)
  | entry (found : Option (Peer × Hash))
  | count (value : Nat)
deriving DecidableEq

def PeerOp.host? : PeerOp → Option CString
  | .add peer _ => some peer.1
  | .remove peer => some peer.1
  | .find peer => some peer.1
  | .removeByHash _ | .findByHash _ | .size => none

/-- The call passes no host longer than `MAX_HOST_LEN` has room for. -/
def PeerOp.HostFits (op : PeerOp) : Prop := ∀ host ∈ op.host?, host.strlen ≤ MAX_HOST_LEN - 1

instance (op : PeerOp) : Decidable op.HostFits :=
  inferInstanceAs (Decidable (∀ host ∈ op.host?, host.strlen ≤ MAX_HOST_LEN - 1))

def observe (info : NodeInfo) : Peer × Hash := (info.peer, info.hash)

def peerStep : Step LookupTable PeerOp PeerReply
  | table, .add peer hash => do
      let (value, table) ← lookupTableAdd .normal true table (some peer.1) peer.2 (some hash)
      return (.code value, table)
  | table, .remove peer => do
      let (value, table) ← lookupTableRemove .normal table (some peer.1) peer.2
      return (.code value, table)
  | table, .removeByHash hash => do
      let (value, table) ← lookupTableRemoveByHash .normal table (some hash)
      return (.code value, table)
  | table, .find peer => do
      let (info, table) ← lookupTableFind .normal table (some peer.1) peer.2
      return (.entry (info.map observe), table)
  | table, .findByHash hash => do
      let (info, table) ← lookupTableFindByHash .normal table (some hash)
      return (.entry (info.map observe), table)
  | table, .size => do
      let (value, table) ← lookupTableSize .normal table
      return (.count value, table)

/-- One call on the abstract table. -/
noncomputable def peerMapStep : AStep (RMap Peer Hash) PeerOp PeerReply
  | map, .add peer hash =>
      if habsent : peer ∉ map.live then (.code 1, map.insert peer hash habsent)
      else (.code 0, map)
  | map, .remove peer => if peer ∈ map.live then (.code 1, map.erase peer) else (.code 0, map)
  | map, .removeByHash hash =>
      match map.newest hash with
      | some peer => (.code 1, map.erase peer)
      | none => (.code 0, map)
  | map, .find peer =>
      (.entry (if peer ∈ map.live then some (peer, map.tag peer) else none), map)
  | map, .findByHash hash => (.entry ((map.newest hash).map fun peer => (peer, map.tag peer)), map)
  | map, .size => (.count map.live.card, map)

def noPeers : RMap Peer Hash := RMap.empty fun _ => ⟨List.replicate HASH_SIZE 0, rfl⟩

/-! ### The representation invariant -/

/-- The chain lists the live peers newest first, each with its hash, and the
    counter is its length. -/
structure Represents (table : LookupTable) (map : RMap Peer Hash) : Prop where
  free : table.mutex = .free
  size : table.size = table.head.length
  live : ∀ peer, peer ∈ map.live ↔ ∃ info ∈ table.head, info.peer = peer
  hash : ∀ info ∈ table.head, map.tag info.peer = info.hash
  recent : table.head.Pairwise fun newer older => map.stamp older.peer < map.stamp newer.peer

namespace Represents

variable {table : LookupTable} {map : RMap Peer Hash}

theorem nodup (h : Represents table map) : (table.head.map NodeInfo.peer).Nodup := by
  rw [List.Nodup, List.pairwise_map]
  refine h.recent.imp ?_
  intro newer older hstamp heq
  rw [heq] at hstamp
  exact Nat.lt_irrefl _ hstamp

theorem card_live (h : Represents table map) : map.live.card = table.size := by
  have hlive : map.live = (table.head.map NodeInfo.peer).toFinset := by
    ext peer
    simp only [List.mem_toFinset, List.mem_map, h.live]
  rw [hlive, List.toFinset_card_of_nodup h.nodup, List.length_map, h.size]

theorem find_peer (h : Represents table map) (peer : Peer) :
    (table.head.find? (peerMatches peer.1 peer.2)).map observe =
      if peer ∈ map.live then some (peer, map.tag peer) else none := by
  rcases hfind : table.head.find? (peerMatches peer.1 peer.2) with _ | info
  · have habsent : peer ∉ map.live := by
      rw [h.live]
      rintro ⟨info, hinfo, hpeer⟩
      exact List.find?_eq_none.mp hfind info hinfo ((peerMatches_iff _ _ info).mpr hpeer)
    rw [if_neg habsent, Option.map_none]
  · have hinfo : info ∈ table.head := List.mem_of_find?_eq_some hfind
    have hpeer : info.peer = peer := (peerMatches_iff _ _ info).mp (List.find?_some hfind)
    have hlive : peer ∈ map.live := (h.live peer).mpr ⟨info, hinfo, hpeer⟩
    rw [if_pos hlive, Option.map_some, observe, ← hpeer, h.hash info hinfo]

/-- **The first match for a hash is the newest peer that carries it.** -/
theorem find_hash (h : Represents table map) (hash : Hash) :
    (table.head.find? (hashMatches hash)).map NodeInfo.peer =
      map.newest hash := by
  rcases hfind : table.head.find? (hashMatches hash) with _ | info
  · rw [Option.map_none, RMap.newest_eq_none]
    intro peer hpeer htag
    obtain ⟨info, hinfo, rfl⟩ := (h.live peer).mp hpeer
    refine List.find?_eq_none.mp hfind info hinfo ?_
    exact (hashMatches_iff hash info).mpr ((h.hash info hinfo).symm.trans htag)
  · obtain ⟨hmatch, before, after, hsplit, hbefore⟩ := List.find?_eq_some_iff_append.mp hfind
    have hinfo : info ∈ table.head := List.mem_of_find?_eq_some hfind
    rw [Option.map_some, eq_comm, RMap.newest_eq_some_iff, RMap.mem_carriers]
    refine ⟨⟨(h.live _).mpr ⟨info, hinfo, rfl⟩, ?_⟩, ?_⟩
    · rw [h.hash info hinfo]
      exact (hashMatches_iff hash info).mp hmatch
    · intro peer hpeer
      obtain ⟨hlive, htag⟩ := RMap.mem_carriers.mp hpeer
      obtain ⟨other, hother, rfl⟩ := (h.live peer).mp hlive
      have hotherHash : hashMatches hash other = true :=
        (hashMatches_iff hash other).mpr ((h.hash other hother).symm.trans htag)
      have hrecent := h.recent
      rw [hsplit] at hother hrecent
      rcases List.mem_append.mp hother with hnewer | hrest
      · -- nodes in front of the first match do not carry the hash
        have hno := hbefore other hnewer
        rw [hotherHash] at hno
        cases hno
      · rcases List.mem_cons.mp hrest with rfl | holder
        · exact Nat.le_refl _
        · have hcons := (List.pairwise_append.mp hrecent).2.1
          exact Nat.le_of_lt ((List.pairwise_cons.mp hcons).1 other holder)

end Represents

/-! ### The operations keep it -/

section Operations

variable {table : LookupTable} {map : RMap Peer Hash}

theorem represents_create : Represents ⟨[], .free, 0⟩ noPeers :=
  ⟨rfl, rfl, by simp [noPeers, RMap.empty], by simp, List.Pairwise.nil⟩

theorem represents_added (h : Represents table map) {info : NodeInfo}
    (habsent : info.peer ∉ map.live) :
    Represents (added table info) (map.insert info.peer info.hash habsent) := by
  have hold : ∀ other ∈ table.head, other.peer ≠ info.peer := by
    intro other hother heq
    exact habsent ((h.live _).mpr ⟨other, hother, heq⟩)
  refine ⟨h.free, ?_, ?_, ?_, ?_⟩
  · simp only [added, List.length_cons, h.size]
  · intro peer
    simp only [added, RMap.insert, Finset.mem_insert, h.live, List.mem_cons]
    constructor
    · rintro (rfl | ⟨other, hother, hpeer⟩)
      · exact ⟨info, Or.inl rfl, rfl⟩
      · exact ⟨other, Or.inr hother, hpeer⟩
    · rintro ⟨other, rfl | hother, hpeer⟩
      · exact Or.inl hpeer.symm
      · exact Or.inr ⟨other, hother, hpeer⟩
  · intro other hother
    simp only [added, List.mem_cons] at hother
    rcases hother with rfl | hother
    · simp only [RMap.insert, Function.update_self]
    · simp only [RMap.insert, Function.update_of_ne (hold other hother), h.hash other hother]
  · simp only [added, RMap.insert, List.pairwise_cons]
    constructor
    · intro other hother
      rw [Function.update_self, Function.update_of_ne (hold other hother)]
      exact map.stamp_lt _ ((h.live _).mpr ⟨other, hother, rfl⟩)
    · refine List.Pairwise.imp_of_mem ?_ h.recent
      intro newer older hnewer holder hstamp
      rwa [Function.update_of_ne (hold newer hnewer), Function.update_of_ne (hold older holder)]

theorem removeMatching_absent (h : Represents table map) {isMatch : NodeInfo → Bool}
    (hfind : table.head.find? isMatch = none) :
    removeMatching .normal isMatch table = .ok (0, table) := by
  have hnone := List.find?_eq_none.mp hfind
  have hany : table.head.any isMatch = false := by
    rw [List.any_eq_false]
    exact hnone
  rw [removeMatching_eq .normal h.free]
  simp only [removed, hany, List.eraseP_of_forall_not hnone, Bool.false_eq_true, if_false]

/-- **Unlinking the first match forgets that peer and no other.** -/
theorem removeMatching_found (h : Represents table map) {isMatch : NodeInfo → Bool}
    {info : NodeInfo} (hfind : table.head.find? isMatch = some info) :
    removeMatching .normal isMatch table = .ok (1, removed isMatch table) ∧
      Represents (removed isMatch table) (map.erase info.peer) := by
  obtain ⟨before, after, hsplit, herase, hdistinct⟩ := eraseP_of_find h.nodup hfind
  have hany : table.head.any isMatch = true :=
    List.any_eq_true.mpr ⟨info, List.mem_of_find?_eq_some hfind, List.find?_some hfind⟩
  have hremoved : removed isMatch table =
      { table with head := before ++ after, size := table.size - 1 } := by
    rw [removed, herase, if_pos hany]
  have hsub : (before ++ after).Sublist table.head := by
    rw [hsplit]
    exact List.Sublist.append_left (List.sublist_cons_self info after) before
  constructor
  · rw [removeMatching_eq .normal h.free, if_pos hany]
  rw [hremoved]
  refine ⟨h.free, ?_, ?_, ?_, h.recent.sublist hsub⟩
  · have hsize := h.size
    rw [hsplit, List.length_append, List.length_cons] at hsize
    show table.size - 1 = (before ++ after).length
    rw [List.length_append]
    omega
  · intro peer
    rw [RMap.erase, Finset.mem_erase, h.live]
    constructor
    · rintro ⟨hne, other, hother, rfl⟩
      rw [hsplit] at hother
      refine ⟨other, ?_, rfl⟩
      rcases List.mem_append.mp hother with hin | hin
      · exact List.mem_append_left after hin
      · rcases List.mem_cons.mp hin with rfl | hin
        · exact absurd rfl hne
        · exact List.mem_append_right before hin
    · rintro ⟨other, hother, rfl⟩
      exact ⟨hdistinct other hother, other, hsub.subset hother, rfl⟩
  · intro other hother
    exact h.hash other (hsub.subset hother)

theorem add_refines (h : Represents table map) (peer : Peer) (hash : Hash)
    (hfits : (PeerOp.add peer hash).HostFits) :
    ∃ table', peerStep table (.add peer hash) = .ok ((peerMapStep map (.add peer hash)).1, table') ∧
      Represents table' (peerMapStep map (.add peer hash)).2 := by
  have hany : table.head.any (peerMatches peer.1 peer.2) = true ↔ peer ∈ map.live := by
    rw [List.any_eq_true, h.live]
    simp only [peerMatches_iff]
  by_cases hlive : peer ∈ map.live
  · refine ⟨table, ?_, ?_⟩
    · simp only [peerStep, lookupTableAdd_eq .normal h.free, hany.mpr hlive, if_true, ok_bind,
        pure_eq_ok, peerMapStep, dif_neg (not_not_intro hlive)]
    · simpa only [peerMapStep, dif_neg (not_not_intro hlive)] using h
  · obtain ⟨info, hcreate, hpeer, hhash⟩ := createNode_true peer.1 peer.2 hash
    rw [truncated_eq_self (hfits peer.1 rfl)] at hpeer
    obtain rfl : info.peer = peer := hpeer
    obtain rfl := hhash
    refine ⟨added table info, ?_, ?_⟩
    · have hanyFalse : ¬ table.head.any (peerMatches info.peer.1 info.peer.2) = true :=
        mt hany.mp hlive
      simp only [peerStep, lookupTableAdd_eq .normal h.free, if_neg hanyFalse, hcreate,
        ok_bind, pure_eq_ok, peerMapStep, dif_pos hlive]
    · simpa only [peerMapStep, dif_pos hlive] using represents_added h hlive

theorem remove_refines (h : Represents table map) (peer : Peer) :
    ∃ table', peerStep table (.remove peer) = .ok ((peerMapStep map (.remove peer)).1, table') ∧
      Represents table' (peerMapStep map (.remove peer)).2 := by
  have hpeer := h.find_peer peer
  rcases hfind : table.head.find? (peerMatches peer.1 peer.2) with _ | info
  · have habsent : peer ∉ map.live := by
      intro hlive
      rw [hfind, if_pos hlive] at hpeer
      cases hpeer
    refine ⟨table, ?_, ?_⟩
    · simp only [peerStep, lookupTableRemove, removeMatching_absent h hfind, ok_bind, pure_eq_ok,
        peerMapStep, if_neg habsent]
    · simpa only [peerMapStep, if_neg habsent] using h
  · have hinfo : info.peer = peer := (peerMatches_iff _ _ info).mp (List.find?_some hfind)
    have hlive : peer ∈ map.live :=
      (h.live peer).mpr ⟨info, List.mem_of_find?_eq_some hfind, hinfo⟩
    obtain ⟨hrun, hrep⟩ := removeMatching_found h hfind
    rw [hinfo] at hrep
    refine ⟨removed (peerMatches peer.1 peer.2) table, ?_, ?_⟩
    · simp only [peerStep, lookupTableRemove, hrun, ok_bind, pure_eq_ok, peerMapStep,
        if_pos hlive]
    · simpa only [peerMapStep, if_pos hlive] using hrep

theorem removeByHash_refines (h : Represents table map) (hash : Hash) :
    ∃ table', peerStep table (.removeByHash hash) =
        .ok ((peerMapStep map (.removeByHash hash)).1, table') ∧
      Represents table' (peerMapStep map (.removeByHash hash)).2 := by
  have hnewest := h.find_hash hash
  rcases hfind : table.head.find? (hashMatches hash) with _ | info
  · rw [hfind, Option.map_none] at hnewest
    refine ⟨table, ?_, ?_⟩
    · simp only [peerStep, lookupTableRemoveByHash, removeMatching_absent h hfind, ok_bind,
        pure_eq_ok, peerMapStep, ← hnewest]
    · simpa only [peerMapStep, ← hnewest] using h
  · rw [hfind, Option.map_some] at hnewest
    obtain ⟨hrun, hrep⟩ := removeMatching_found h hfind
    refine ⟨removed (hashMatches hash) table, ?_, ?_⟩
    · simp only [peerStep, lookupTableRemoveByHash, hrun, ok_bind, pure_eq_ok, peerMapStep,
        ← hnewest]
    · simpa only [peerMapStep, ← hnewest] using hrep

/-- **One call refines one call.** -/
theorem peerStep_refines (op : PeerOp) (h : Represents table map) (hfits : op.HostFits) :
    ∃ table', peerStep table op = .ok ((peerMapStep map op).1, table') ∧
      Represents table' (peerMapStep map op).2 := by
  cases op with
  | add peer hash => exact add_refines h peer hash hfits
  | remove peer => exact remove_refines h peer
  | removeByHash hash => exact removeByHash_refines h hash
  | find peer =>
    refine ⟨table, ?_, h⟩
    simp only [peerStep, lookupTableFind, findMatching_eq .normal h.free, h.find_peer, ok_bind,
      pure_eq_ok, peerMapStep]
  | findByHash hash =>
    refine ⟨table, ?_, h⟩
    simp only [peerStep, lookupTableFindByHash, findMatching_eq .normal h.free, ok_bind,
      pure_eq_ok, peerMapStep, ← h.find_hash]
    rcases hfind : table.head.find? (hashMatches hash) with _ | info
    · rfl
    · simp only [Option.map_some, observe, h.hash info (List.mem_of_find?_eq_some hfind)]
  | size =>
    refine ⟨table, ?_, h⟩
    simp only [peerStep, lookupTableSize_eq .normal h.free, h.card_live, ok_bind, pure_eq_ok,
      peerMapStep]

end Operations

/-! ### Whole runs -/

/-- **The peer table refines a finite map with insertion recency.**  Every sequence
    of calls on a new table, with hosts of at most 45 bytes and any ports and hashes,
    runs without fault and returns, call by call, what the abstract table returns. -/
theorem peer_table_refines_recency_map (ops : List PeerOp) (hfits : ∀ op ∈ ops, op.HostFits) :
    ∃ table final, lookupTableCreate .succeeds = some table ∧
      run peerStep table ops = .ok ((arun peerMapStep noPeers ops).1, final) := by
  obtain ⟨final, hrun, -⟩ := run_refines peerStep peerMapStep Represents PeerOp.HostFits
    (fun table map op h hfits => peerStep_refines op h hfits)
    ops ⟨[], .free, 0⟩ noPeers represents_create hfits
  exact ⟨⟨[], .free, 0⟩, final, rfl, hrun⟩

def samplePeer : Peer := (⟨[97], by decide⟩, 1)

def sampleCalls : List PeerOp :=
  [.add samplePeer (sampleHash 7), .add samplePeer (sampleHash 8), .findByHash (sampleHash 7),
    .removeByHash (sampleHash 7), .find samplePeer, .size]

theorem peer_table_refines_sampleCalls :
    (∀ op ∈ sampleCalls, op.HostFits) ∧
    (arun peerMapStep noPeers sampleCalls).1 =
      [.code 1, .code 0, .entry (some (samplePeer, sampleHash 7)), .code 1, .entry none,
        .count 0] := by
  have hfits : ∀ op ∈ sampleCalls, op.HostFits := by decide
  refine ⟨hfits, ?_⟩
  obtain ⟨table, final, hcreate, hrun⟩ := peer_table_refines_recency_map sampleCalls hfits
  obtain rfl : (⟨[], .free, 0⟩ : LookupTable) = table := Option.some.inj hcreate
  have hconcrete : run peerStep ⟨[], .free, 0⟩ sampleCalls =
      .ok ([.code 1, .code 0, .entry (some (samplePeer, sampleHash 7)), .code 1, .entry none,
        .count 0], ⟨[], .free, 0⟩) := by
    rfl
  rw [hconcrete] at hrun
  exact (Prod.mk.inj (Except.ok.inj hrun)).1.symm

end Cdht.PeerTableRefinement
