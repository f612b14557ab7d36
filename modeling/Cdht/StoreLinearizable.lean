/-
  Cdht/StoreLinearizable.lean
  ===========================
  **Concurrent calls on the store are linearizable.**

  Every step of a call is a step of the atomic map, under the relation of
  `StoreSimulation.lean`.  A put takes effect when it links its entry, or when it meets
  an entry with its digest; a get when it meets the entry, or the end of the chain.  All
  other steps go unnoticed.
-/
import Cdht.StoreSimulation

namespace Cdht.StoreConcurrent

open Cdht.Memory Cdht.Machine Cdht.Strings Cdht.Store Cdht.StoreRefinement Cdht.StoreInvariant
open Cdht.LinkedCells Cdht.Linearizability Cdht.FirstWriteMap

variable {T : Type}

/-! ### The steps of a call -/

section Calls

variable [DecidableEq T] (sha1 : Bytes → Digest)

/-- The step returns, and is a step of the atomic object. -/
def Simulated (atomic : AtomicMap T) (result : Exec (Seen T × SharedStore T)) : Prop :=
  ∃ seen store' atomic', result = .ok (seen, store') ∧
    AtomicStep (mapStep sha1) atomic seen atomic' ∧ ∃ chains, Related sha1 store' chains atomic'

variable {store : SharedStore T} {chains : Chains} {atomic : AtomicMap T}

theorem Related.unnoticed (h : Related sha1 store chains atomic) :
    Simulated sha1 atomic (.ok (none, store)) :=
  ⟨none, store, atomic, rfl, .stutter, chains, h⟩

theorem Related.noticed {thread : T} {op : StoreOp} (hcalled : atomic.status thread = .called op)
    (h : Related sha1 store chains (atomic.effect (mapStep sha1) thread op)) :
    Simulated sha1 atomic (.ok (none, store)) :=
  ⟨none, store, _, rfl, .effect thread op hcalled, chains, h⟩

theorem Related.returned {thread : T} {reply : StoreReply}
    (hdone : atomic.status thread = .done reply)
    (h : Related sha1 store chains (atomic.setStatus thread .idle)) :
    Simulated sha1 atomic (.ok (some (.ret thread reply), store)) :=
  ⟨_, store, _, rfl, .ret thread reply hdone, chains, h⟩

theorem putStep_simulated (h : Related sha1 store chains atomic) {thread : T} {key data : Bytes}
    {stage : PutStage} (hthread : store.threads thread = .putting key data stage)
    (address : Address) :
    Simulated sha1 atomic (putStep sha1 store thread address key data stage) := by
  have hok := h.threads thread
  simp only [hthread, ThreadOk] at hok
  have hchain := h.shape.chain (store.indexOf (dig sha1 key))
  cases stage with
  | lock =>
    simp only [putStep, SharedStore.lockBucket, h.indexOf_lt, if_true]
    cases hfree : store.bucketLocks (store.indexOf (dig sha1 key)) with
    | some holder => exact h.unnoticed
    | none => exact Related.unnoticed sha1 (h.lock sha1 hfree rfl hok)
  | head =>
    simp only [putStep, SharedStore.readBucket, h.indexOf_lt, if_true, ok_bind]
    cases hhead : store.buckets (store.indexOf (dig sha1 key)) with
    | none =>
      have hempty := (hhead ▸ hchain).eq_nil
      exact Related.unnoticed sha1 (h.advance sha1 hthread rfl ⟨hok, hempty⟩)
    | some node =>
      have hsearch := searching_head (dig sha1 key) (hhead ▸ hchain)
      exact Related.unnoticed sha1 (h.advance sha1 hthread rfl ⟨hok, hsearch⟩)
  | create =>
    obtain ⟨hcalled, hempty⟩ := hok
    simp only [putStep]
    cases hunused : store.heap address with
    | some cell => exact h.unnoticed
    | none =>
      have hheld := h.holds sha1 hthread rfl
      exact Related.noticed sha1 hcalled (h.create sha1 data hheld hempty hunused)
  | compare node =>
    obtain ⟨hcalled, hsearch⟩ := hok
    obtain ⟨entry, next, hcell, -, hequal, hdiffer⟩ := hsearch.step hchain
    simp only [putStep, loadCell_eq_ok hcell, ok_bind, memcmp_digest]
    by_cases hkey : dig sha1 key = entry.key
    · -- a duplicate: the map has the digest already, and the put leaves it as it is
      simp only [if_pos hkey, pure_eq_ok]
      have hpresent : (atomic.state (dig sha1 key)).isSome := by
        simp only [← h.shows_state (dig sha1 key), hequal hkey.symm, Option.map_some,
          Option.isSome_some]
      have hmap : (mapStep sha1 atomic.state (.put key data)).2 = atomic.state :=
        write_of_isSome hpresent data
      exact Related.noticed sha1 hcalled (h.answer sha1 hthread rfl hmap rfl)
    · have hnext := hdiffer fun heq => hkey heq.symm
      simp only [if_neg hkey]
      cases next with
      | none =>
        obtain ⟨⟨front, hlast⟩, habsent⟩ := hnext
        exact Related.unnoticed sha1
          (h.advance sha1 hthread rfl ⟨hcalled, ⟨front, entry, hlast⟩, habsent⟩)
      | some next =>
        exact Related.unnoticed sha1 (h.advance sha1 hthread rfl ⟨hcalled, hnext⟩)
  | append node =>
    obtain ⟨hcalled, ⟨front, entry, hlast⟩, habsent⟩ := hok
    simp only [putStep]
    cases hunused : store.heap address with
    | some cell => exact h.unnoticed
    | none =>
      have hheld := h.holds sha1 hthread rfl
      obtain ⟨next, hcell, -⟩ := (hlast ▸ hchain).split
      have hfresh : node ≠ address := by
        rintro rfl
        cases hunused.symm.trans hcell
      simp only [storeNext_eq_ok ((placeCell_of_ne hfresh ..).trans hcell), ok_bind]
      exact Related.noticed sha1 hcalled (h.append sha1 data hheld habsent hlast hunused)
  | unlock =>
    have hheld := h.holds sha1 hthread rfl
    simp only [putStep, SharedStore.unlockBucket, hheld, if_true, ok_bind]
    exact Related.unnoticed sha1 (h.unlock sha1 hheld rfl hok)
  | finish => exact Related.returned sha1 hok (h.setStatus sha1 rfl rfl)

theorem getStep_simulated (h : Related sha1 store chains atomic) {thread : T} {key : Bytes}
    {stage : GetStage} (hthread : store.threads thread = .getting key stage) :
    Simulated sha1 atomic (getStep sha1 store thread key stage) := by
  have hok := h.threads thread
  simp only [hthread, ThreadOk] at hok
  have hchain := h.shape.chain (store.indexOf (dig sha1 key))
  have hvalue := h.shows_state (dig sha1 key)
  have hmap : (mapStep sha1 atomic.state (.get key)).2 = atomic.state := rfl
  -- a get that finds nothing takes effect where its search ends
  have hnothing : dig sha1 key ∉ digestsOf (chains (store.indexOf (dig sha1 key))) →
      ThreadOk sha1 store chains (.done (mapStep sha1 atomic.state (.get key)).1)
        (.getting key (.unlock none)) := by
    intro habsent
    simp only [lookup_eq_none habsent, Option.map_none] at hvalue
    simp only [ThreadOk, GetOk, mapStep, ← hvalue, StoreReply.ofValue]
  cases stage with
  | lock =>
    simp only [getStep, SharedStore.lockBucket, h.indexOf_lt, if_true]
    cases hfree : store.bucketLocks (store.indexOf (dig sha1 key)) with
    | some holder => exact h.unnoticed
    | none => exact Related.unnoticed sha1 (h.lock sha1 hfree rfl hok)
  | head =>
    simp only [getStep, SharedStore.readBucket, h.indexOf_lt, if_true, ok_bind]
    cases hhead : store.buckets (store.indexOf (dig sha1 key)) with
    | none =>
      have habsent : dig sha1 key ∉ digestsOf (chains (store.indexOf (dig sha1 key))) := by
        simp only [(hhead ▸ hchain).eq_nil]
        exact List.not_mem_nil
      exact Related.noticed sha1 hok (h.answer sha1 hthread rfl hmap (hnothing habsent))
    | some ent =>
      have hsearch := searching_head (dig sha1 key) (hhead ▸ hchain)
      exact Related.unnoticed sha1 (h.advance sha1 hthread rfl ⟨hok, hsearch⟩)
  | compare ent =>
    obtain ⟨hcalled, hsearch⟩ := hok
    obtain ⟨entry, next, hcell, hmem, hequal, hdiffer⟩ := hsearch.step hchain
    simp only [getStep, loadCell_eq_ok hcell, ok_bind, memcmp_digest]
    by_cases hkey : entry.key = dig sha1 key
    · simp only [if_pos hkey]
      refine Related.noticed sha1 hcalled (h.answer sha1 hthread rfl hmap ?_)
      refine ⟨entry.data, ⟨entry, hmem, rfl⟩, ?_⟩
      simp only [mapStep, ← hvalue, hequal hkey, Option.map_some, StoreReply.ofValue]
    · have hnext := hdiffer hkey
      simp only [if_neg hkey]
      cases next with
      | none => exact Related.noticed sha1 hcalled (h.answer sha1 hthread rfl hmap (hnothing hnext.2))
      | some next => exact Related.unnoticed sha1 (h.advance sha1 hthread rfl ⟨hcalled, hnext⟩)
  | copy ent =>
    obtain ⟨output, hfound, hdone⟩ := hok
    obtain ⟨entry, next, hcell, rfl⟩ := hfound.cell hchain
    simp only [getStep, loadCell_eq_ok hcell, ok_bind, entry.readAt_data]
    exact Related.unnoticed sha1 (h.advance sha1 hthread rfl ⟨hfound, hdone⟩)
  | unlock found =>
    have hheld := h.holds sha1 hthread rfl
    simp only [getStep, SharedStore.unlockBucket, hheld, if_true, ok_bind]
    cases found with
    | none => exact Related.unnoticed sha1 (h.unlock sha1 hheld rfl hok)
    | some copied => exact Related.unnoticed sha1 (h.unlock sha1 hheld rfl hok)
  | length ent output =>
    -- outside the critical section, but the entry is still there
    obtain ⟨hfound, hdone⟩ := hok
    obtain ⟨entry, next, hcell, rfl⟩ := hfound.cell hchain
    simp only [getStep, loadCell_eq_ok hcell, ok_bind, ← entry.length_data]
    exact Related.unnoticed sha1 (h.advance sha1 hthread rfl hdone)
  | finish output length => exact Related.returned sha1 hok (h.setStatus sha1 rfl rfl)

/-- **One step of any thread.** -/
theorem sharedStep_simulated (h : Related sha1 store chains atomic) (move : Move T) :
    Simulated sha1 atomic (sharedStep sha1 store move) := by
  cases move with
  | call thread op =>
    have hok := h.threads thread
    cases hthread : store.threads thread with
    | idle =>
      simp only [hthread, ThreadOk] at hok
      cases op with
      | put key data =>
        simp only [sharedStep, hthread]
        exact ⟨_, _, _, rfl, .call thread (.put key data) hok, chains, h.setStatus sha1 rfl rfl⟩
      | get key =>
        simp only [sharedStep, hthread]
        exact ⟨_, _, _, rfl, .call thread (.get key) hok, chains, h.setStatus sha1 rfl rfl⟩
    | putting key data stage =>
      simp only [sharedStep, hthread]
      exact h.unnoticed
    | getting key stage =>
      simp only [sharedStep, hthread]
      exact h.unnoticed
  | act thread address =>
    cases hthread : store.threads thread with
    | idle =>
      simp only [sharedStep, hthread]
      exact h.unnoticed
    | putting key data stage =>
      simp only [sharedStep, hthread]
      exact putStep_simulated sha1 h hthread address
    | getting key stage =>
      simp only [sharedStep, hthread]
      exact getStep_simulated sha1 h hthread

/-! ### Runs -/

theorem run_simulated {bucketCount : UInt64} (hpos : 0 < bucketCount) (moves : List (Move T)) :
    ∃ seen store atomic chains,
      run (sharedStep sha1) (SharedStore.new bucketCount) moves = .ok (seen, store) ∧
      Trace (mapStep sha1) (.start empty) (seen.flatMap Option.toList) atomic ∧
      Related sha1 store chains atomic := by
  obtain ⟨seen, store, atomic, hrun, htrace, chains, hrelated⟩ :=
    trace_of_simulation (mapStep sha1) (sharedStep sha1)
      (fun store atomic => ∃ chains, Related sha1 store chains atomic)
      (fun store move atomic hrelated => by
        obtain ⟨chains, hrelated⟩ := hrelated
        exact sharedStep_simulated sha1 hrelated move)
      moves (SharedStore.new bucketCount) [] (.start empty) ⟨_, related_new sha1 hpos⟩ .nil
  exact ⟨seen, store, atomic, chains, hrun, htrace, hrelated⟩

/-- A put that has taken effect is in the map. -/
theorem isSome_of_put_logged {history : List (Event T StoreOp StoreReply)}
    (htrace : Trace (mapStep sha1) (.start empty) history atomic) {thread : T} {key data : Bytes}
    {reply : StoreReply} (hlogged : (thread, .put key data, reply) ∈ atomic.log) :
    (atomic.state (dig sha1 key)).isSome := by
  have hstate := congrArg Prod.snd htrace.sequential
  simp only at hstate
  simp only [← hstate, arun_mapStep_state, ← Option.ne_none_iff_isSome]
  intro hnone
  have hput : StoreOp.put key data ∈ atomic.log.map fun entry => entry.2.1 :=
    List.mem_map.mpr ⟨_, hlogged, rfl⟩
  exact (earliestPut_eq_none_iff sha1).mp hnone key data hput rfl

theorem ofValue_length (value : Option Bytes) :
    ∃ output length, StoreReply.ofValue value = .answered output length ∧
      length = (output.getD []).length := by
  cases value with
  | none => exact ⟨none, 0, rfl, rfl⟩
  | some data => exact ⟨some data, data.length, rfl, rfl⟩

/-- **The store is linearizable.**  For every number of buckets and threads and every
    interleaving of the steps of their calls, no step faults; the calls and returns
    are those of the atomic map, in which each operation takes effect between its call
    and its return; every completed operation has the reply of the sequential run of
    the log; the chains hold the map of that run, each digest once, in its own bucket;
    the digest of a completed put is there; and the length that a get reads after its
    unlock is the length of the data that it copied before. -/
theorem store_linearizable (bucketCount : UInt64) (hcount : 1 ≤ bucketCount)
    (moves : List (Move T)) :
    ∃ seen store atomic chains,
      run (sharedStep sha1) (SharedStore.new bucketCount) moves = .ok (seen, store) ∧
      Trace (mapStep sha1) (.start empty) (seen.flatMap Option.toList) atomic ∧
      arun (mapStep sha1) empty (atomic.log.map fun entry => entry.2.1) =
        (atomic.log.map fun entry => entry.2.2, atomic.state) ∧
      Shape store chains ∧ Shows store chains atomic.state ∧
      ∀ thread op reply, Completed (seen.flatMap Option.toList) thread op reply →
        (thread, op, reply) ∈ atomic.log ∧
        match op with
        | .put key _ => dig sha1 key ∈ digestsOf (chains (store.indexOf (dig sha1 key)))
        | .get _ => ∃ output length, reply = .answered output length ∧
            length = (output.getD []).length := by
  have hpos := count_pos_of_one_le hcount
  obtain ⟨seen, store, atomic, chains, hrun, htrace, hrelated⟩ := run_simulated sha1 hpos moves
  refine ⟨seen, store, atomic, chains, hrun, htrace, htrace.sequential, hrelated.shape,
    hrelated.shows_state, ?_⟩
  intro thread op reply hcompleted
  have hlogged := htrace.completed hcompleted
  refine ⟨hlogged, ?_⟩
  cases op with
  | put key data =>
    have hstored := isSome_of_put_logged sha1 htrace hlogged
    simp only [← hrelated.shows_state (dig sha1 key), Option.isSome_map] at hstored
    exact lookupChain_isSome_iff.mp hstored
  | get key =>
    obtain ⟨state, hreply⟩ := htrace.reply _ hlogged
    simp only [mapStep] at hreply
    exact hreply ▸ ofValue_length (state (dig sha1 key))

end Calls

/-- A get is called while a put of the same key holds the bucket: it waits, and finds
    the new entry. -/
def overlappingCalls : List (Move Bool) :=
  [.call false (.put [97, 98, 99] [1, 2]), .act false 0, .call true (.get [97, 98, 99]),
    .act true 0, .act false 0, .act false 7, .act false 0, .act true 0, .act true 0,
    .act false 0, .act true 0, .act true 0, .act true 0, .act true 0, .act true 0]

theorem store_linearizable_overlappingCalls :
    ∃ seen store atomic, ∃ chains : Chains,
      run (sharedStep fun _ => digestOfAbc) (SharedStore.new 1024) overlappingCalls =
        .ok (seen, store) ∧
      Trace (mapStep fun _ => digestOfAbc) (.start empty) (seen.flatMap Option.toList) atomic ∧
      (true, .get [97, 98, 99], .answered (some [1, 2]) 2) ∈ atomic.log ∧
      digestOfAbc ∈ digestsOf (chains (store.indexOf digestOfAbc)) := by
  obtain ⟨seen, store, atomic, chains, hrun, htrace, -, -, -, hcompleted⟩ :=
    store_linearizable (fun _ => digestOfAbc) 1024 (by decide) overlappingCalls
  have hvisible : (run (sharedStep fun _ => digestOfAbc) (SharedStore.new 1024)
      overlappingCalls).map (fun result => result.1.flatMap Option.toList) =
      .ok [.call false (.put [97, 98, 99] [1, 2]), .call true (.get [97, 98, 99]),
        .ret false .stored, .ret true (.answered (some [1, 2]) 2)] := by
    decide +kernel
  simp only [hrun] at hvisible
  have hhistory := Except.ok.inj hvisible
  have hput : Completed (seen.flatMap Option.toList) false (.put [97, 98, 99] [1, 2]) .stored :=
    ⟨[.call false (.put [97, 98, 99] [1, 2]), .call true (.get [97, 98, 99])], _, hhistory, rfl⟩
  have hget : Completed (seen.flatMap Option.toList) true (.get [97, 98, 99])
      (.answered (some [1, 2]) 2) :=
    ⟨[.call false (.put [97, 98, 99] [1, 2]), .call true (.get [97, 98, 99]), .ret false .stored],
      _, hhistory, rfl⟩
  exact ⟨seen, store, atomic, chains, hrun, htrace, (hcompleted _ _ _ hget).1,
    (hcompleted _ _ _ hput).2⟩

end Cdht.StoreConcurrent
