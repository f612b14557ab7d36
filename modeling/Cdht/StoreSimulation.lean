/-
  Cdht/StoreSimulation.lean
  =========================
  **The shared store and the atomic map.**

  The atomic object is the first-write-wins map of `StoreRefinement.lean`.  `Related`
  is the simulation: each bucket is a chain of entries with distinct digests that
  belong there, these chains hold the map, a thread inside a critical section holds
  the lock of its bucket, and what a thread remembers of its walk is true of the chain.

  Two facts let a thread keep what it knows while others move.  Inside a critical
  section its chain does not change, because nobody else can be inside.  Outside of it
  a chain only grows, so an entry that a get has found stays where it is, with the
  data and the length it had: that is why its length may be read after the unlock.
-/
import Cdht.StoreConcurrent

namespace Cdht.StoreConcurrent

open Cdht.Memory Cdht.Machine Cdht.Strings Cdht.Store Cdht.StoreRefinement Cdht.StoreInvariant
open Cdht.LinkedCells Cdht.Linearizability Cdht.FirstWriteMap

variable {T : Type}

/-! ### Chains of entries -/

abbrev Chains := Nat → List (Address × KvEntry)

def entries (cells : List (Address × KvEntry)) : List KvEntry := cells.map Prod.snd

def digestsOf (cells : List (Address × KvEntry)) : List Digest := chainDigests (entries cells)

theorem digestsOf_append (cells more : List (Address × KvEntry)) :
    digestsOf (cells ++ more) = digestsOf cells ++ digestsOf more := by
  simp only [digestsOf, entries, chainDigests, List.map_append]

theorem digestsOf_cons (address : Address) (entry : KvEntry) (cells : List (Address × KvEntry)) :
    digestsOf ((address, entry) :: cells) = entry.key :: digestsOf cells := rfl

theorem lookup_eq_none {cells : List (Address × KvEntry)} {digest : Digest}
    (h : digest ∉ digestsOf cells) : lookupChain (entries cells) digest = none := by
  rw [← Option.not_isSome_iff_eq_none, lookupChain_isSome_iff]
  exact h

/-- The first entry with a digest, found by walking past others. -/
theorem lookup_eq_some {front back : List (Address × KvEntry)} {address : Address}
    {entry : KvEntry} (h : entry.key ∉ digestsOf front) :
    lookupChain (entries (front ++ (address, entry) :: back)) entry.key = some entry := by
  have hfront := lookup_eq_none h
  simp only [lookupChain, entries, List.map_append, List.map_cons] at hfront ⊢
  rw [List.find?_append, hfront, Option.none_or, List.find?_cons_of_pos (by simp)]

structure Shape (store : SharedStore T) (chains : Chains) : Prop where
  chain : ∀ index, Chain store.heap (store.buckets index) (chains index)
  placed : ∀ index, ∀ cell ∈ chains index, store.indexOf cell.2.key = index
  distinct : ∀ index, (digestsOf (chains index)).Nodup

/-- The chains hold the map. -/
def Shows (store : SharedStore T) (chains : Chains) (map : FMap Digest Bytes) : Prop :=
  ∀ digest, (lookupChain (entries (chains (store.indexOf digest))) digest).map KvEntry.data =
    map digest

/-- No cell is in two chains: its digest says in which one it is. -/
theorem Shape.apart {store : SharedStore T} {chains : Chains} (h : Shape store chains)
    {index other : Nat} (hne : other ≠ index) {address : Address}
    (hmem : address ∈ addresses (chains index)) : address ∉ addresses (chains other) := by
  intro hmem'
  obtain ⟨⟨address, entry⟩, hcell, rfl⟩ := List.mem_map.mp hmem
  obtain ⟨⟨address', entry'⟩, hcell', heq⟩ := List.mem_map.mp hmem'
  obtain rfl : address' = address := heq
  obtain ⟨front, back, hsplit⟩ := List.append_of_mem hcell
  obtain ⟨front', back', hsplit'⟩ := List.append_of_mem hcell'
  obtain ⟨next, hheap, -⟩ := (hsplit ▸ h.chain index).split
  obtain ⟨next', hheap', -⟩ := (hsplit' ▸ h.chain other).split
  have hsame := Option.some.inj (hheap.symm.trans hheap')
  simp only [Cell.mk.injEq] at hsame
  have hindex := h.placed index _ hcell
  have hindex' := h.placed other _ hcell'
  simp only [hsame.1] at hindex
  exact hne (hindex'.symm.trans hindex)

/-! ### A new entry at the end of a chain -/

def linked (chains : Chains) (index : Nat) (cell : Address × KvEntry) : Chains :=
  Function.update chains index (chains index ++ [cell])

theorem linked_self (chains : Chains) (index : Nat) (cell : Address × KvEntry) :
    linked chains index cell index = chains index ++ [cell] := Function.update_self ..

theorem linked_of_ne {index other : Nat} (hne : other ≠ index) (chains : Chains)
    (cell : Address × KvEntry) : linked chains index cell other = chains other :=
  Function.update_of_ne hne ..

theorem entries_link {cells : List (Address × KvEntry)} {digest : Digest}
    (habsent : digest ∉ digestsOf cells) (address : Address) (data : Bytes) :
    entries (cells ++ [(address, kvEntryNew digest data)]) =
      putChain (entries cells) digest data := by
  simp only [putChain, lookup_eq_none habsent, Option.isSome_none, Bool.false_eq_true, if_false]
  simp only [entries, List.map_append, List.map_cons, List.map_nil]

section Link

variable {store : SharedStore T} {chains : Chains} {digest : Digest} {data : Bytes}
  {address : Address} (habsent : digest ∉ digestsOf (chains (store.indexOf digest)))

include habsent

theorem Shape.link (h : Shape store chains) {heap : Heap KvEntry} {buckets : Nat → Option Address}
    (hchain : Chain heap (buckets (store.indexOf digest))
      (chains (store.indexOf digest) ++ [(address, kvEntryNew digest data)]))
    (hothers : ∀ index, index ≠ store.indexOf digest → Chain heap (buckets index) (chains index)) :
    Shape { store with heap := heap, buckets := buckets }
      (linked chains (store.indexOf digest) (address, kvEntryNew digest data)) := by
  refine ⟨?_, ?_, ?_⟩
  · intro index
    by_cases hindex : index = store.indexOf digest
    · subst hindex
      simpa only [linked_self] using hchain
    · simpa only [linked_of_ne hindex] using hothers index hindex
  · intro index cell hcell
    by_cases hindex : index = store.indexOf digest
    · subst hindex
      simp only [linked_self, List.mem_append, List.mem_singleton] at hcell
      rcases hcell with hcell | rfl
      · exact h.placed _ cell hcell
      · rfl
    · simp only [linked_of_ne hindex] at hcell
      exact h.placed index cell hcell
  · intro index
    by_cases hindex : index = store.indexOf digest
    · subst hindex
      simp only [linked_self, digestsOf_append]
      exact (h.distinct _).append (List.nodup_singleton _) (List.disjoint_singleton.mpr habsent)
    · simpa only [linked_of_ne hindex] using h.distinct index

theorem Shows.link {map : FMap Digest Bytes} (h : Shows store chains map) :
    Shows store (linked chains (store.indexOf digest) (address, kvEntryNew digest data))
      (write map digest data) := by
  intro other
  simp only [write_apply, ← h other]
  by_cases hindex : store.indexOf other = store.indexOf digest
  · simp only [hindex, linked_self, entries_link habsent, lookupChain_putChain]
  · have hother : other ≠ digest := by
      rintro rfl
      exact hindex rfl
    simp only [linked_of_ne hindex, hother, if_false, Option.or_none]

end Link

/-! ### What the threads know -/

/-- The walk has come to `node` past entries with other digests. -/
def Searching (chain : List (Address × KvEntry)) (digest : Digest) (node : Address) : Prop :=
  ∃ front entry back, chain = front ++ (node, entry) :: back ∧ digest ∉ digestsOf front

/-- The entry at `ent` holds `output`. -/
def Found (chain : List (Address × KvEntry)) (ent : Address) (output : Bytes) : Prop :=
  ∃ entry, (ent, entry) ∈ chain ∧ entry.data = output

theorem searching_head {heap : Heap KvEntry} {node : Address} {chain : List (Address × KvEntry)}
    (digest : Digest) (hchain : Chain heap (some node) chain) : Searching chain digest node := by
  obtain ⟨entry, rest, rfl⟩ := hchain.eq_cons
  exact ⟨[], entry, rest, rfl, List.not_mem_nil⟩

/-- **One step of the walk.**  The node is alive; it has the digest, or the walk can go
    on, or it has come to the end of a chain without it. -/
theorem Searching.step {heap : Heap KvEntry} {start : Option Address}
    {chain : List (Address × KvEntry)} {digest : Digest} {node : Address}
    (h : Searching chain digest node) (hchain : Chain heap start chain) :
    ∃ entry next, heap node = some ⟨entry, next⟩ ∧ (node, entry) ∈ chain ∧
      (entry.key = digest → lookupChain (entries chain) digest = some entry) ∧
      (entry.key ≠ digest → match next with
        | some next => Searching chain digest next
        | none => (∃ front, chain = front ++ [(node, entry)]) ∧ digest ∉ digestsOf chain) := by
  obtain ⟨front, entry, back, rfl, hfront⟩ := h
  obtain ⟨next, hcell, hback⟩ := hchain.split
  refine ⟨entry, next, hcell, List.mem_append_right front List.mem_cons_self, ?_, ?_⟩
  · rintro rfl
    exact lookup_eq_some hfront
  · intro hkey
    have hpassed : digest ∉ digestsOf (front ++ [(node, entry)]) := by
      rw [digestsOf_append, List.mem_append, digestsOf_cons, List.mem_cons]
      rintro (hmem | heq | hmem)
      · exact hfront hmem
      · exact hkey heq.symm
      · exact List.not_mem_nil hmem
    cases next with
    | none =>
      obtain rfl := hback.eq_nil
      exact ⟨⟨front, rfl⟩, hpassed⟩
    | some next =>
      obtain ⟨following, rest, rfl⟩ := hback.eq_cons
      refine ⟨front ++ [(node, entry)], following, rest, ?_, hpassed⟩
      simp only [List.append_assoc, List.cons_append, List.nil_append]

theorem Found.cell {heap : Heap KvEntry} {start : Option Address}
    {chain : List (Address × KvEntry)} {ent : Address} {output : Bytes}
    (h : Found chain ent output) (hchain : Chain heap start chain) :
    ∃ entry next, heap ent = some ⟨entry, next⟩ ∧ entry.data = output := by
  obtain ⟨entry, hmem, hdata⟩ := h
  obtain ⟨front, back, rfl⟩ := List.append_of_mem hmem
  obtain ⟨next, hcell, -⟩ := hchain.split
  exact ⟨entry, next, hcell, hdata⟩

abbrev CallStatus := Status StoreOp StoreReply

abbrev AtomicMap (T : Type) := Atomic T (FMap Digest Bytes) StoreOp StoreReply

def PutOk (chain : List (Address × KvEntry)) (digest : Digest) (op : StoreOp) (status : CallStatus) :
    PutStage → Prop
  | .lock => status = .called op
  | .head => status = .called op
  | .create => status = .called op ∧ chain = []
  | .compare node => status = .called op ∧ Searching chain digest node
  | .append node =>
      status = .called op ∧ (∃ front entry, chain = front ++ [(node, entry)]) ∧
        digest ∉ digestsOf chain
  | .unlock => status = .done .stored
  | .finish => status = .done .stored

def GetOk (chain : List (Address × KvEntry)) (digest : Digest) (op : StoreOp) (status : CallStatus) :
    GetStage → Prop
  | .lock => status = .called op
  | .head => status = .called op
  | .compare ent => status = .called op ∧ Searching chain digest ent
  | .copy ent =>
      ∃ output, Found chain ent output ∧ status = .done (.answered (some output) output.length)
  | .unlock none => status = .done (.answered none 0)
  | .unlock (some (ent, output)) =>
      Found chain ent output ∧ status = .done (.answered (some output) output.length)
  | .length ent output =>
      Found chain ent output ∧ status = .done (.answered (some output) output.length)
  | .finish output length => status = .done (.answered output length)

def PutStage.inside : PutStage → Bool
  | .lock | .finish => false
  | _ => true

def GetStage.inside : GetStage → Bool
  | .lock | .length _ _ | .finish _ _ => false
  | _ => true

section Simulation

variable (sha1 : Bytes → Digest)

/-- The bucket whose critical section the thread is in. -/
def inside (store : SharedStore T) : Thread → Option Nat
  | .idle => none
  | .putting key _ stage => if stage.inside then some (store.indexOf (dig sha1 key)) else none
  | .getting key stage => if stage.inside then some (store.indexOf (dig sha1 key)) else none

def ThreadOk (store : SharedStore T) (chains : Chains) (status : CallStatus) : Thread → Prop
  | .idle => status = .idle
  | .putting key data stage =>
      PutOk (chains (store.indexOf (dig sha1 key))) (dig sha1 key) (.put key data) status stage
  | .getting key stage =>
      GetOk (chains (store.indexOf (dig sha1 key))) (dig sha1 key) (.get key) status stage

structure Related (store : SharedStore T) (chains : Chains) (atomic : AtomicMap T) : Prop where
  count_pos : 0 < store.bucketCount
  shape : Shape store chains
  shows_state : Shows store chains atomic.state
  locked : ∀ thread index, inside sha1 store (store.threads thread) = some index →
    store.bucketLocks index = some thread
  threads : ∀ thread, ThreadOk sha1 store chains (atomic.status thread) (store.threads thread)

theorem related_new {bucketCount : UInt64} (hpos : 0 < bucketCount) :
    Related sha1 (SharedStore.new bucketCount : SharedStore T) (fun _ => []) (.start empty) := by
  refine ⟨hpos, ⟨fun _ => rfl, ?_, fun _ => List.nodup_nil⟩, fun _ => rfl, ?_, fun _ => rfl⟩
  · intro index cell hcell
    cases hcell
  · intro thread index hinside
    cases hinside

theorem Related.indexOf_lt {store : SharedStore T} {chains : Chains} {atomic : AtomicMap T}
    (h : Related sha1 store chains atomic) (digest : Digest) :
    store.indexOf digest < store.bucketCount.toNat :=
  UInt64.lt_iff_toNat_lt.mp (sha1ModBucket_lt digest h.count_pos)

theorem Related.holds {store : SharedStore T} {chains : Chains} {atomic : AtomicMap T}
    (h : Related sha1 store chains atomic) {thread : T} {before : Thread} {index : Nat}
    (hthread : store.threads thread = before) (hinside : inside sha1 store before = some index) :
    store.bucketLocks index = some thread := by
  apply h.locked thread
  simp only [hthread, hinside]

/-! ### What stays true while other threads move -/

def Grows (chains chains' : Chains) : Prop := ∀ index, ∃ more, chains' index = chains index ++ more

theorem Grows.refl (chains : Chains) : Grows chains chains :=
  fun index => ⟨[], (List.append_nil (chains index)).symm⟩

theorem grows_linked (chains : Chains) (index : Nat) (cell : Address × KvEntry) :
    Grows chains (linked chains index cell) := by
  intro other
  by_cases hother : other = index
  · subst hother
    exact ⟨[cell], linked_self ..⟩
  · refine ⟨[], ?_⟩
    simp only [linked_of_ne hother, List.append_nil]

theorem Found.grow {chain more : List (Address × KvEntry)} {ent : Address} {output : Bytes}
    (h : Found chain ent output) : Found (chain ++ more) ent output := by
  obtain ⟨entry, hmem, hdata⟩ := h
  exact ⟨entry, List.mem_append_left more hmem, hdata⟩

/-- A thread inside a critical section needs its chain as it is, any other thread can do
    with a longer one. -/
theorem ThreadOk.grow {store : SharedStore T} {chains chains' : Chains} {status : CallStatus}
    {state : Thread} (h : ThreadOk sha1 store chains status state) (hgrows : Grows chains chains')
    (hinside : ∀ index, inside sha1 store state = some index → chains' index = chains index) :
    ThreadOk sha1 store chains' status state := by
  cases state with
  | idle => exact h
  | putting key data stage =>
    by_cases hstage : stage.inside
    · have hsame := hinside _ (if_pos hstage)
      simpa only [ThreadOk, hsame] using h
    · cases stage with
      | lock => exact h
      | finish => exact h
      | head => exact absurd rfl hstage
      | create => exact absurd rfl hstage
      | compare node => exact absurd rfl hstage
      | append node => exact absurd rfl hstage
      | unlock => exact absurd rfl hstage
  | getting key stage =>
    by_cases hstage : stage.inside
    · have hsame := hinside _ (if_pos hstage)
      simpa only [ThreadOk, hsame] using h
    · cases stage with
      | lock => exact h
      | finish output length => exact h
      | length ent output =>
        obtain ⟨more, hmore⟩ := hgrows (store.indexOf (dig sha1 key))
        obtain ⟨hfound, hstatus⟩ := h
        simp only [ThreadOk, GetOk, hmore]
        exact ⟨hfound.grow, hstatus⟩
      | head => exact absurd rfl hstage
      | compare ent => exact absurd rfl hstage
      | copy ent => exact absurd rfl hstage
      | unlock found => exact absurd rfl hstage

section Moves

variable [DecidableEq T] {store : SharedStore T} {chains : Chains} {atomic : AtomicMap T}
  (h : Related sha1 store chains atomic)

include h

/-- **One thread moves.**  It may change a chain only if it holds the lock of that bucket,
    and then only at the end. -/
theorem Related.move {chains' : Chains} {atomic' : AtomicMap T} {thread : T} {state : Thread}
    {heap : Heap KvEntry} {buckets : Nat → Option Address} {locks : Nat → Option T}
    (hshape : Shape { store with heap := heap, buckets := buckets } chains')
    (hshows : Shows store chains' atomic'.state) (hgrows : Grows chains chains')
    (hheld : ∀ index, chains' index ≠ chains index → store.bucketLocks index = some thread)
    (hlocks : ∀ other index, other ≠ thread → store.bucketLocks index = some other →
      locks index = some other)
    (hinside : ∀ index, inside sha1 store state = some index → locks index = some thread)
    (hstatus : ∀ other, other ≠ thread → atomic'.status other = atomic.status other)
    (hok : ThreadOk sha1 store chains' (atomic'.status thread) state) :
    Related sha1
      ({ store with heap := heap, buckets := buckets, bucketLocks := locks }.setThread thread state)
      chains' atomic' := by
  refine ⟨h.count_pos, ⟨hshape.chain, hshape.placed, hshape.distinct⟩, hshows, ?_, ?_⟩
  · intro other index hother
    by_cases heq : other = thread
    · subst heq
      simp only [SharedStore.setThread, Function.update_self] at hother
      exact hinside index hother
    · simp only [SharedStore.setThread, Function.update_of_ne heq] at hother
      exact hlocks other index heq (h.locked other index hother)
  · intro other
    by_cases heq : other = thread
    · subst heq
      simp only [SharedStore.setThread, Function.update_self]
      exact hok
    · simp only [SharedStore.setThread, Function.update_of_ne heq, hstatus other heq]
      refine (h.threads other).grow sha1 hgrows ?_
      intro index hother
      by_contra hchanged
      -- nobody else holds the lock of the bucket that changes
      have hlock := (h.locked other index hother).symm.trans (hheld index hchanged)
      exact heq (Option.some.inj hlock)

/-- A step that changes no chain. -/
theorem Related.keep {atomic' : AtomicMap T} {thread : T} {state : Thread}
    {locks : Nat → Option T} (hstate : atomic'.state = atomic.state)
    (hlocks : ∀ other index, other ≠ thread → store.bucketLocks index = some other →
      locks index = some other)
    (hinside : ∀ index, inside sha1 store state = some index → locks index = some thread)
    (hstatus : ∀ other, other ≠ thread → atomic'.status other = atomic.status other)
    (hok : ThreadOk sha1 store chains (atomic'.status thread) state) :
    Related sha1 ({ store with bucketLocks := locks }.setThread thread state) chains atomic' := by
  have hshows : Shows store chains atomic'.state := hstate ▸ h.shows_state
  exact h.move sha1 ⟨h.shape.chain, h.shape.placed, h.shape.distinct⟩ hshows (Grows.refl chains)
    (fun index hchanged => absurd rfl hchanged) hlocks hinside hstatus hok

theorem Related.lock {thread : T} {state : Thread} {index : Nat}
    (hfree : store.bucketLocks index = none) (hinside : inside sha1 store state = some index)
    (hok : ThreadOk sha1 store chains (atomic.status thread) state) :
    Related sha1
      ({ store with
          bucketLocks := Function.update store.bucketLocks index (some thread) }.setThread
        thread state) chains atomic := by
  refine h.keep sha1 rfl ?_ ?_ (fun other hother => rfl) hok
  · intro other held hother hlock
    have hne : held ≠ index := by
      rintro rfl
      cases hfree.symm.trans hlock
    simpa only [Function.update_of_ne hne] using hlock
  · intro held hheld
    obtain rfl := Option.some.inj (hinside.symm.trans hheld)
    exact Function.update_self ..

theorem Related.unlock {thread : T} {state : Thread} {index : Nat}
    (hheld : store.bucketLocks index = some thread) (houtside : inside sha1 store state = none)
    (hok : ThreadOk sha1 store chains (atomic.status thread) state) :
    Related sha1
      ({ store with
          bucketLocks := Function.update store.bucketLocks index none }.setThread
        thread state) chains atomic := by
  refine h.keep sha1 rfl ?_ ?_ (fun other hother => rfl) hok
  · intro other held hother hlock
    have hne : held ≠ index := by
      rintro rfl
      exact hother (Option.some.inj (hlock.symm.trans hheld))
    simpa only [Function.update_of_ne hne] using hlock
  · intro held hinside
    cases houtside.symm.trans hinside

/-- A step that touches nothing but what the thread remembers. -/
theorem Related.advance {thread : T} {before state : Thread}
    (hthread : store.threads thread = before)
    (hsame : inside sha1 store state = inside sha1 store before)
    (hok : ThreadOk sha1 store chains (atomic.status thread) state) :
    Related sha1 (store.setThread thread state) chains atomic :=
  h.keep sha1 rfl (fun _ _ _ hlock => hlock)
    (fun _ hinside => h.holds sha1 hthread (hsame.symm.trans hinside)) (fun _ _ => rfl) hok

/-- An operation that takes effect without a change of the map. -/
theorem Related.answer {thread : T} {before state : Thread} {op : StoreOp}
    (hthread : store.threads thread = before)
    (hsame : inside sha1 store state = inside sha1 store before)
    (hmap : (mapStep sha1 atomic.state op).2 = atomic.state)
    (hok : ThreadOk sha1 store chains (.done (mapStep sha1 atomic.state op).1) state) :
    Related sha1 (store.setThread thread state) chains
      (atomic.effect (mapStep sha1) thread op) := by
  refine h.keep sha1 hmap (fun _ _ _ hlock => hlock) ?_ ?_ ?_
  · intro index hinside
    exact h.holds sha1 hthread (hsame.symm.trans hinside)
  · intro other hother
    exact Function.update_of_ne hother ..
  · simpa only [Atomic.effect, Function.update_self] using hok

/-- A thread that calls or returns. -/
theorem Related.setStatus {thread : T} {state : Thread} {status : CallStatus}
    (houtside : inside sha1 store state = none) (hok : ThreadOk sha1 store chains status state) :
    Related sha1 (store.setThread thread state) chains (atomic.setStatus thread status) := by
  refine h.keep sha1 rfl (fun _ _ _ hlock => hlock) ?_ ?_ ?_
  · intro index hinside
    cases houtside.symm.trans hinside
  · intro other hother
    exact Function.update_of_ne hother ..
  · simpa only [Atomic.setStatus, Function.update_self] using hok

/-- **A put takes effect** when its entry is linked at the end of the chain. -/
theorem Related.link {thread : T} {key data : Bytes} {heap : Heap KvEntry}
    {buckets : Nat → Option Address} (address : Address)
    (hheld : store.bucketLocks (store.indexOf (dig sha1 key)) = some thread)
    (habsent : dig sha1 key ∉ digestsOf (chains (store.indexOf (dig sha1 key))))
    (hchain : Chain heap (buckets (store.indexOf (dig sha1 key)))
      (chains (store.indexOf (dig sha1 key)) ++ [(address, kvEntryNew (dig sha1 key) data)]))
    (hothers : ∀ index, index ≠ store.indexOf (dig sha1 key) →
      Chain heap (buckets index) (chains index)) :
    Related sha1
      ({ store with heap := heap, buckets := buckets }.setThread thread
        (.putting key data .unlock))
      (linked chains (store.indexOf (dig sha1 key)) (address, kvEntryNew (dig sha1 key) data))
      (atomic.effect (mapStep sha1) thread (.put key data)) := by
  refine h.move sha1 (h.shape.link habsent hchain hothers) (h.shows_state.link habsent)
    (grows_linked chains _ _) ?_ (fun _ _ _ hlock => hlock) ?_ ?_ ?_
  · intro index hchanged
    by_cases hindex : index = store.indexOf (dig sha1 key)
    · exact hindex ▸ hheld
    · exact absurd (linked_of_ne hindex ..) hchanged
  · intro index hinside
    obtain rfl := Option.some.inj hinside
    exact hheld
  · intro other hother
    exact Function.update_of_ne hother ..
  · exact Function.update_self ..

/-- `kv_entry_new` straight into an empty bucket. -/
theorem Related.create {thread : T} {key : Bytes} {address : Address} (data : Bytes)
    (hheld : store.bucketLocks (store.indexOf (dig sha1 key)) = some thread)
    (hempty : chains (store.indexOf (dig sha1 key)) = []) (hunused : store.heap address = none) :
    Related sha1
      ({ store with
          heap := placeCell store.heap address ⟨kvEntryNew (dig sha1 key) data, none⟩
          buckets := Function.update store.buckets (store.indexOf (dig sha1 key))
            (some address) }.setThread thread (.putting key data .unlock))
      (linked chains (store.indexOf (dig sha1 key)) (address, kvEntryNew (dig sha1 key) data))
      (atomic.effect (mapStep sha1) thread (.put key data)) := by
  refine h.link sha1 address hheld ?_ ?_ ?_
  · simp only [hempty]
    exact List.not_mem_nil
  · simp only [hempty, List.nil_append, Function.update_self]
    exact ⟨rfl, none, placeCell_self .., rfl⟩
  · intro index hindex
    have hother := h.shape.chain index
    simp only [Function.update_of_ne hindex]
    exact hother.place (hother.not_mem_of_unused hunused) _

/-- `node->next = entry`, behind the last node. -/
theorem Related.append {thread : T} {key : Bytes} {address node : Address}
    {front : List (Address × KvEntry)} {entry : KvEntry} (data : Bytes)
    (hheld : store.bucketLocks (store.indexOf (dig sha1 key)) = some thread)
    (habsent : dig sha1 key ∉ digestsOf (chains (store.indexOf (dig sha1 key))))
    (hlast : chains (store.indexOf (dig sha1 key)) = front ++ [(node, entry)])
    (hunused : store.heap address = none) :
    Related sha1
      ({ store with
          heap := placeCell
            (placeCell store.heap address ⟨kvEntryNew (dig sha1 key) data, none⟩) node
            ⟨entry, some address⟩ }.setThread thread (.putting key data .unlock))
      (linked chains (store.indexOf (dig sha1 key)) (address, kvEntryNew (dig sha1 key) data))
      (atomic.effect (mapStep sha1) thread (.put key data)) := by
  have hchain := h.shape.chain (store.indexOf (dig sha1 key))
  have hnode : node ∈ addresses (chains (store.indexOf (dig sha1 key))) := by
    simp only [hlast, addresses, List.map_append, List.map_cons, List.map_nil,
      List.mem_append, List.mem_singleton, or_true]
  refine h.link sha1 address hheld habsent ?_ ?_
  · have hlinked := @Chain.link _ _ _ _ _ _ _ (kvEntryNew (dig sha1 key) data)
      (hlast ▸ hchain) hunused
    simpa only [hlast, List.append_assoc, List.cons_append, List.nil_append] using hlinked
  · intro index hindex
    have hother := h.shape.chain index
    exact (hother.place (hother.not_mem_of_unused hunused) _).place
      (h.shape.apart hindex hnode) _

end Moves

end Simulation

end Cdht.StoreConcurrent
