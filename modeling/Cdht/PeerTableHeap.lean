/-
  Cdht/PeerTableHeap.lean
  =======================
  **The peer table with its pointers** (`src/node/lookup_table.c`).

  The same operations as in `PeerTable.lean`, where the chain of peers is a list, here
  with the nodes on a heap: a new node is linked in at the head, a removed one is
  unlinked through `prev` and freed, and `lookup_table_find` returns a pointer into the
  chain.  The address that `malloc` returns is an argument (`none` for NULL), so that a
  freed address may come back.  The operations are written for the time in which they
  hold the mutex, and for arguments that are not NULL; a loop gets a number of rounds.

  Over whole runs every answer is that of the list, no access faults, the heap holds
  nothing but the chain, and `lookup_table_destroy` leaves nothing behind
  (`heap_refines_list`).  A pointer that was returned stays good until its peer is removed
  (`pointer_stays`).
-/
import Cdht.ChainWalk
import Cdht.Machine
import Cdht.PeerTableSpec

namespace Cdht.PeerTableHeap

open Cdht.Memory Cdht.Machine Cdht.LinkedCells Cdht.ChainWalk Cdht.Strings
open Cdht.PeerTable (sampleHash NodeInfo Hash LookupTable TableOp TableReply createNode peerMatches
  hashMatches tableStep)

/-! ### The functions of the source -/

/-- `lookup_table_t` without its mutex. -/
structure HeapTable where
  head : Option Address
  size : Nat
deriving DecidableEq

abbrev State := Heap NodeInfo × HeapTable

def lookupTableCreate : State := (fun _ => none, ⟨none, 0⟩)

section Operations

variable (rounds : Nat)

def lookupTableAdd (malloc : Option Address) (host : CString) (port : Int32) (hash : Hash)
    (state : State) : Exec (Option (Int × State)) := do
  match ← seek (peerMatches host port) state.1 rounds state.2.head with
  | none => return none
  | some (some _) => return some (0, state)  -- already exists
  | some none =>
      match malloc, createNode malloc.isSome host.chars port hash with
      | some newNode, some info =>
          let heap := placeCell state.1 newNode ⟨info, none⟩
          let heap ← storeNext heap newNode state.2.head
          return some (1, heap, ⟨some newNode, state.2.size + 1⟩)
      | _, _ => return some (-1, state)

/-- `lookup_table_remove` and `lookup_table_remove_by_hash`. -/
def removeMatching (isMatch : NodeInfo → Bool) (state : State) : Exec (Option (Int × State)) := do
  match ← unlink isMatch state.1 state.2.head rounds none state.2.head with
  | none => return none
  | some (none, heap, _) => return some (0, heap, state.2)
  | some (some _, heap, head) => return some (1, heap, ⟨head, state.2.size - 1⟩)

/-- `lookup_table_find` and `lookup_table_find_by_hash`: the pointer that they return. -/
def findMatching (isMatch : NodeInfo → Bool) (state : State) : Exec (Option (Option Address)) :=
  seek isMatch state.1 rounds state.2.head

def lookupTableDestroy (state : State) : Exec (Option (Heap NodeInfo)) :=
  releaseAll rounds state.1 state.2.head

inductive HeapOp where
  | add (malloc : Option Address) (host : CString) (port : Int32) (hash : Hash)
  | remove (host : CString) (port : Int32)
  | removeByHash (hash : Hash)
  | find (host : CString) (port : Int32)
  | findByHash (hash : Hash)
  | size

/-- The answer to a call.  For a pointer, `info` is what it points to. -/
inductive HeapReply where
  | code (value : Int)
  | pointer (address : Option Address) (info : Option NodeInfo)
  | count (value : Nat)

def codeReply (state : State) : Option (Int × State) → Option HeapReply × State
  | none => (none, state)
  | some (value, next) => (some (.code value), next)

/-- The caller reads what the pointer points to. -/
def pointerReply (state : State) :
    Option (Option Address) → Exec (Option HeapReply × State)
  | none => .ok (none, state)
  | some none => .ok (some (.pointer none none), state)
  | some (some address) => do
      let cell ← loadCell state.1 address
      return (some (.pointer (some address) (some cell.data)), state)

/-- One call; it answers `none` if its loop has not ended. -/
def heapStep : Step State HeapOp (Option HeapReply)
  | state, .add malloc host port hash => do
      let result ← lookupTableAdd rounds malloc host port hash state
      return codeReply state result
  | state, .remove host port => do
      let result ← removeMatching rounds (peerMatches host port) state
      return codeReply state result
  | state, .removeByHash hash => do
      let result ← removeMatching rounds (hashMatches hash) state
      return codeReply state result
  | state, .find host port => do
      let result ← findMatching rounds (peerMatches host port) state
      pointerReply state result
  | state, .findByHash hash => do
      let result ← findMatching rounds (hashMatches hash) state
      pointerReply state result
  | state, .size => .ok (some (.count state.2.size), state)

end Operations

/-- `malloc` returns an address that is not in use. -/
def Admissible (state : State) : HeapOp → Prop
  | .add (some newNode) _ _ _ => state.1 newNode = none
  | _ => True

/-- The same call on the table of `PeerTable.lean`. -/
def HeapOp.onList : HeapOp → TableOp
  | .add malloc host port hash => .add malloc.isSome (some host) port (some hash)
  | .remove host port => .remove (some host) port
  | .removeByHash hash => .removeByHash (some hash)
  | .find host port => .find (some host) port
  | .findByHash hash => .findByHash (some hash)
  | .size => .size

def SameReply : HeapReply → TableReply → Prop
  | .code value, .code value' => value = value'
  | .pointer address info, .node info' => info = info' ∧ (address = none ↔ info = none)
  | .count value, .count value' => value = value'
  | _, _ => False

/-! ### What a heap represents -/

/-- The chain from the head holds the peers of the table, and there is nothing else on
    the heap. -/
structure Represents (state : State) (table : LookupTable) (cells : List (Address × NodeInfo)) :
    Prop where
  chain : Chain state.1 state.2.head cells
  exact : Exact state.1 cells
  peers : cells.map Prod.snd = table.head
  size : state.2.size = table.size
  counted : table.size = table.head.length
  free : table.mutex = .free

theorem represents_create : Represents lookupTableCreate ⟨[], .free, 0⟩ [] :=
  ⟨rfl, fun _ hlive => absurd rfl hlive, rfl, rfl, rfl, rfl⟩

namespace Represents

variable {state : State} {table : LookupTable} {cells : List (Address × NodeInfo)}
  (h : Represents state table cells)

include h

theorem any_eq (isMatch : NodeInfo → Bool) :
    table.head.any isMatch = (firstMatch isMatch cells).isSome := by
  rw [← h.peers, List.any_map, firstMatch, Option.isSome_map, Bool.eq_iff_iff, List.any_eq_true,
    List.find?_isSome]
  rfl

theorem find_eq (isMatch : NodeInfo → Bool) :
    table.head.find? isMatch = (cells.find? fun cell => isMatch cell.2).map Prod.snd := by
  rw [← h.peers, List.find?_map]
  rfl

theorem eraseP_eq (isMatch : NodeInfo → Bool) :
    (cells.eraseP fun cell => isMatch cell.2).map Prod.snd = table.head.eraseP isMatch := by
  rw [← h.peers, List.eraseP_map]
  rfl

/-- The cell of a match. -/
theorem cell_of_find {isMatch : NodeInfo → Bool} {address : Address} {info : NodeInfo}
    (hfind : cells.find? (fun cell => isMatch cell.2) = some (address, info)) :
    ∃ next, state.1 address = some ⟨info, next⟩ := by
  obtain ⟨front, back, hsplit⟩ := List.append_of_mem (List.mem_of_find?_eq_some hfind)
  have hchain := h.chain
  rw [hsplit] at hchain
  obtain ⟨next, hcell, -⟩ := hchain.split
  exact ⟨next, hcell⟩

variable {rounds : Nat} (hrounds : cells.length ≤ rounds)

include hrounds

/-- The pointer that a search returns is that of the first match. -/
theorem find_of_pointer {host : CString} {port : Int32} {address : Address} {info : NodeInfo}
    (hfound : heapStep rounds state (.find host port) =
      .ok (some (.pointer (some address) (some info)), state)) :
    cells.find? (fun cell => peerMatches host port cell.2) = some (address, info) ∧
      ∃ next, state.1 address = some ⟨info, next⟩ := by
  have hseek := @seek_eq NodeInfo (peerMatches host port) state.1 cells _ rounds h.chain hrounds
  rw [heapStep, findMatching, hseek, ok_bind] at hfound
  rcases hfind : cells.find? (fun cell => peerMatches host port cell.2) with _ | ⟨found, value⟩
  · rw [firstMatch, hfind] at hfound
    cases hfound
  · obtain ⟨next, hcell⟩ := h.cell_of_find hfind
    rw [firstMatch, hfind] at hfound
    simp only [Option.map_some, pointerReply, loadCell_eq_ok hcell, ok_bind, pure_eq_ok] at hfound
    cases hfound
    exact ⟨hfind, next, hcell⟩

variable (kind : MutexKind)

theorem add {malloc : Option Address} {host : CString} {port : Int32} {hash : Hash}
    (hmalloc : Admissible state (.add malloc host port hash)) :
    ∃ value state' table' cells',
      lookupTableAdd rounds malloc host port hash state = .ok (some (value, state')) ∧
      PeerTable.lookupTableAdd kind malloc.isSome table (some host) port (some hash) =
        .ok (value, table') ∧
      Represents state' table' cells' ∧ cells'.length ≤ cells.length + 1 ∧
      ∀ address, state.1 address ≠ none → state'.1 address = state.1 address := by
  have hseek := @seek_eq NodeInfo (peerMatches host port) state.1 cells _ rounds h.chain hrounds
  have hany := h.any_eq (peerMatches host port)
  rcases hfirst : firstMatch (peerMatches host port) cells with _ | found
  · rw [hfirst] at hseek hany
    have hnone : ¬ table.head.any (peerMatches host port) = true := by
      rw [hany]
      exact Bool.false_ne_true
    rcases malloc with _ | newNode
    · refine ⟨-1, state, table, cells, ?_, ?_, h, Nat.le_succ _, fun _ _ => rfl⟩
      · simp only [lookupTableAdd, hseek, ok_bind, pure_eq_ok]
      · rw [PeerTable.lookupTableAdd_eq kind h.free, if_neg hnone]
        rfl
    · obtain ⟨info, hinfo, -⟩ := PeerTable.createNode_true host port hash
      have hstore := storeNext_eq_ok (placeCell_self state.1 newNode ⟨info, none⟩) state.2.head
      refine ⟨1, (placeCell state.1 newNode ⟨info, state.2.head⟩, ⟨some newNode, state.2.size + 1⟩),
        PeerTable.added table info, (newNode, info) :: cells, ?_, ?_, ?_, Nat.le_refl _, ?_⟩
      · simp only [lookupTableAdd, hseek, ok_bind, pure_eq_ok, Option.isSome_some, hinfo, hstore,
          placeCell_placeCell]
      · rw [PeerTable.lookupTableAdd_eq kind h.free, if_neg hnone, Option.isSome_some, hinfo]
      · refine ⟨h.chain.push hmalloc info, h.exact.push newNode info _, ?_, ?_, ?_, h.free⟩
        · rw [List.map_cons, h.peers]
          rfl
        · exact congrArg (· + 1) h.size
        · exact congrArg (· + 1) h.counted
      · intro address hlive
        apply placeCell_of_ne
        rintro rfl
        exact hlive hmalloc
  · rw [hfirst] at hseek hany
    refine ⟨0, state, table, cells, ?_, ?_, h, Nat.le_succ _, fun _ _ => rfl⟩
    · simp only [lookupTableAdd, hseek, ok_bind, pure_eq_ok]
    · rw [PeerTable.lookupTableAdd_eq kind h.free, if_pos (by rw [hany]; rfl)]

theorem remove (isMatch : NodeInfo → Bool) :
    ∃ value state' table' cells',
      removeMatching rounds isMatch state = .ok (some (value, state')) ∧
      PeerTable.removeMatching kind isMatch table = .ok (value, table') ∧
      Represents state' table' cells' ∧ cells'.length ≤ cells.length + 1 ∧
      Loses state.1 state'.1 (firstMatch isMatch cells) := by
  have hany := h.any_eq isMatch
  rcases hfirst : firstMatch isMatch cells with _ | found
  · rw [hfirst] at hany
    have hnone : ¬ table.head.any isMatch = true := by
      rw [hany]
      exact Bool.false_ne_true
    have hrun := unlink_none h.chain hrounds (firstMatch_eq_none_iff.mp hfirst)
    refine ⟨0, state, table, cells, ?_, ?_, h, Nat.le_succ _, fun address => ?_⟩
    · simp only [removeMatching, hrun, ok_bind, pure_eq_ok]
    · have hkept : table.head.eraseP isMatch = table.head := by
        apply List.eraseP_of_forall_not
        intro info hmem hmatch
        exact hnone (List.any_eq_true.mpr ⟨info, hmem, hmatch⟩)
      rw [PeerTable.removeMatching_eq kind h.free, if_neg hnone, PeerTable.removed, if_neg hnone,
        hkept]
    · rw [if_neg (by simp)]
  · obtain ⟨heap', head', hrun, hchain, hexact, hloses⟩ :=
      @unlink_eq NodeInfo isMatch state.1 state.2.head cells rounds h.chain h.exact hrounds
    rw [hfirst] at hrun hany hloses
    have hsome : table.head.any isMatch = true := by
      rw [hany]
      rfl
    have hlength : (table.head.eraseP isMatch).length = table.head.length - 1 := by
      obtain ⟨info, hmem, hmatch⟩ := List.any_eq_true.mp hsome
      exact List.length_eraseP_of_mem hmem hmatch
    refine ⟨1, (heap', ⟨head', state.2.size - 1⟩), PeerTable.removed isMatch table,
      cells.eraseP fun cell => isMatch cell.2, ?_, ?_, ?_, ?_, hloses⟩
    · simp only [removeMatching, hrun, ok_bind, pure_eq_ok]
    · rw [PeerTable.removeMatching_eq kind h.free, if_pos hsome]
    · refine ⟨hchain, hexact, h.eraseP_eq isMatch, ?_, ?_, h.free⟩
      · simp only [PeerTable.removed, if_pos hsome, h.size]
      · simp only [PeerTable.removed, if_pos hsome, hlength, h.counted]
    · exact Nat.le_succ_of_le List.length_eraseP_le

theorem find (isMatch : NodeInfo → Bool) :
    ∃ reply, (do
        let result ← findMatching rounds isMatch state
        pointerReply state result) = .ok (some reply, state) ∧
      SameReply reply (.node (table.head.find? isMatch)) := by
  have hseek := @seek_eq NodeInfo isMatch state.1 cells _ rounds h.chain hrounds
  have hfind := h.find_eq isMatch
  rw [findMatching, hseek, ok_bind]
  rcases hcell : cells.find? (fun cell => isMatch cell.2) with _ | ⟨address, info⟩
  · rw [hcell] at hfind
    rw [firstMatch, hcell, hfind]
    exact ⟨.pointer none none, rfl, rfl, iff_of_true rfl rfl⟩
  · rw [hcell] at hfind
    obtain ⟨next, hload⟩ := h.cell_of_find hcell
    rw [firstMatch, hcell, hfind]
    refine ⟨.pointer (some address) (some info), ?_, rfl, iff_of_false ?_ ?_⟩
    · simp only [Option.map_some, pointerReply, loadCell_eq_ok hload, ok_bind, pure_eq_ok]
    · exact Option.some_ne_none address
    · exact Option.some_ne_none info

/-- **One call**, on the heap and on the list. -/
theorem step {op : HeapOp} (hop : Admissible state op) :
    ∃ reply state' reply' table' cells', heapStep rounds state op = .ok (some reply, state') ∧
      tableStep kind table op.onList = .ok (reply', table') ∧ SameReply reply reply' ∧
      Represents state' table' cells' ∧ cells'.length ≤ cells.length + 1 := by
  cases op with
  | add malloc host port hash =>
    obtain ⟨value, state', table', cells', hheap, hlist, hnext, hlength, -⟩ :=
      h.add hrounds kind hop
    refine ⟨.code value, state', .code value, table', cells', ?_, ?_, rfl, hnext, hlength⟩
    · simp only [heapStep, hheap, ok_bind, pure_eq_ok, codeReply]
    · simp only [HeapOp.onList, tableStep, hlist, ok_bind, pure_eq_ok]
  | remove host port =>
    obtain ⟨value, state', table', cells', hheap, hlist, hnext, hlength, -⟩ :=
      h.remove hrounds kind (peerMatches host port)
    refine ⟨.code value, state', .code value, table', cells', ?_, ?_, rfl, hnext, hlength⟩
    · simp only [heapStep, hheap, ok_bind, pure_eq_ok, codeReply]
    · simp only [HeapOp.onList, tableStep, PeerTable.lookupTableRemove, hlist, ok_bind, pure_eq_ok]
  | removeByHash hash =>
    obtain ⟨value, state', table', cells', hheap, hlist, hnext, hlength, -⟩ :=
      h.remove hrounds kind (hashMatches hash)
    refine ⟨.code value, state', .code value, table', cells', ?_, ?_, rfl, hnext, hlength⟩
    · simp only [heapStep, hheap, ok_bind, pure_eq_ok, codeReply]
    · simp only [HeapOp.onList, tableStep, PeerTable.lookupTableRemoveByHash, hlist, ok_bind,
        pure_eq_ok]
  | find host port =>
    obtain ⟨reply, hheap, hsame⟩ := h.find hrounds (peerMatches host port)
    refine ⟨reply, state, _, table, cells, hheap, ?_, hsame, h, Nat.le_succ _⟩
    simp only [HeapOp.onList, tableStep, PeerTable.lookupTableFind,
      PeerTable.findMatching_eq kind h.free, ok_bind, pure_eq_ok]
  | findByHash hash =>
    obtain ⟨reply, hheap, hsame⟩ := h.find hrounds (hashMatches hash)
    refine ⟨reply, state, _, table, cells, hheap, ?_, hsame, h, Nat.le_succ _⟩
    simp only [HeapOp.onList, tableStep, PeerTable.lookupTableFindByHash,
      PeerTable.findMatching_eq kind h.free, ok_bind, pure_eq_ok]
  | size =>
    refine ⟨.count state.2.size, state, .count table.size, table, cells, rfl, ?_, h.size, h,
      Nat.le_succ _⟩
    simp only [HeapOp.onList, tableStep, PeerTable.lookupTableSize_eq kind h.free, ok_bind,
      pure_eq_ok]

theorem destroy : lookupTableDestroy rounds state = .ok (some fun _ => none) :=
  releaseAll_exact h.chain h.exact hrounds

end Represents

/-! ### Whole runs -/

theorem run_heapStep {rounds : Nat} (kind : MutexKind) {ops : List HeapOp} :
    ∀ {state : State} {table : LookupTable} {cells : List (Address × NodeInfo)},
      Represents state table cells → cells.length + ops.length ≤ rounds →
      StepsMeet (heapStep rounds) Admissible state ops →
      ∃ replies final replies' table' cells',
        run (heapStep rounds) state ops = .ok (replies.map some, final) ∧
        run (tableStep kind) table (ops.map HeapOp.onList) = .ok (replies', table') ∧
        List.Forall₂ SameReply replies replies' ∧ Represents final table' cells' ∧
        cells'.length ≤ cells.length + ops.length := by
  induction ops with
  | nil =>
    intro state table cells h _ _
    exact ⟨[], state, [], table, cells, rfl, rfl, .nil, h, Nat.le_refl _⟩
  | cons op ops ih =>
    rintro state table cells h hrounds ⟨hop, hops⟩
    rw [List.length_cons] at hrounds
    have hroom : cells.length ≤ rounds := by omega
    obtain ⟨reply, next, reply', table', cells', hheap, hlist, hsame, hnext, hlength⟩ :=
      h.step hroom kind hop
    obtain ⟨replies, final, replies', table'', cells'', hrun, hrun', hreplies, hfinal, hlength'⟩ :=
      ih hnext (by omega) (hops _ next hheap)
    refine ⟨reply :: replies, final, reply' :: replies', table'', cells'', ?_, ?_,
      .cons hsame hreplies, hfinal, ?_⟩
    · simp only [run, hheap, hrun, ok_bind, pure_eq_ok, List.map_cons]
    · simp only [List.map_cons, run, hlist, hrun', ok_bind, pure_eq_ok]
    · rw [List.length_cons]
      omega

/-- The call is a removal that matches the peer. -/
def HeapOp.unlinks : HeapOp → NodeInfo → Bool
  | .remove host port, info => peerMatches host port info
  | .removeByHash hash, info => hashMatches hash info
  | _, _ => false

/-- A removed node is one that matches. -/
theorem Represents.removed_or_kept {state state' : State} {table : LookupTable}
    {cells : List (Address × NodeInfo)} (h : Represents state table cells)
    {isMatch : NodeInfo → Bool} (hloses : Loses state.1 state'.1 (firstMatch isMatch cells))
    {address : Address} {info : NodeInfo} (hinfo : (state.1 address).map Cell.data = some info) :
    (state'.1 address).map Cell.data = some info ∨
      state'.1 address = none ∧ isMatch info = true := by
  have hdata := hloses address
  by_cases hfirst : firstMatch isMatch cells = some address
  · rw [if_pos hfirst] at hdata
    refine Or.inr ⟨Option.map_eq_none_iff.mp hdata, ?_⟩
    obtain ⟨⟨found, value⟩, hfind, rfl⟩ := Option.map_eq_some_iff.mp hfirst
    obtain ⟨next, hcell⟩ := h.cell_of_find hfind
    rw [hcell] at hinfo
    obtain rfl : value = info := Option.some.inj hinfo
    exact @List.find?_some _ (fun cell => isMatch cell.2) _ cells hfind
  · rw [if_neg hfirst, hinfo] at hdata
    exact Or.inl hdata

/-- What is at an address after a call: the same peer, or nothing if the call was a
    removal that matches it. -/
theorem Represents.step_data {state : State} {table : LookupTable}
    {cells : List (Address × NodeInfo)} (h : Represents state table cells) {rounds : Nat}
    (hrounds : cells.length ≤ rounds) {op : HeapOp} (hop : Admissible state op)
    {reply : Option HeapReply} {state' : State} (hstep : heapStep rounds state op = .ok (reply, state'))
    {address : Address} {info : NodeInfo} (hinfo : (state.1 address).map Cell.data = some info) :
    (state'.1 address).map Cell.data = some info ∨
      state'.1 address = none ∧ op.unlinks info = true := by
  have hlive : state.1 address ≠ none := by
    intro hnone
    rw [hnone] at hinfo
    cases hinfo
  cases op with
  | add malloc host port hash =>
    obtain ⟨value, next, table', cells', hheap, -, -, -, hkeeps⟩ := h.add hrounds .normal hop
    simp only [heapStep, hheap, ok_bind, pure_eq_ok, codeReply] at hstep
    cases hstep
    exact Or.inl (by rw [hkeeps address hlive, hinfo])
  | remove host port =>
    obtain ⟨value, next, table', cells', hheap, -, -, -, hloses⟩ :=
      h.remove hrounds .normal (peerMatches host port)
    simp only [heapStep, hheap, ok_bind, pure_eq_ok, codeReply] at hstep
    cases hstep
    exact h.removed_or_kept hloses hinfo
  | removeByHash hash =>
    obtain ⟨value, next, table', cells', hheap, -, -, -, hloses⟩ :=
      h.remove hrounds .normal (hashMatches hash)
    simp only [heapStep, hheap, ok_bind, pure_eq_ok, codeReply] at hstep
    cases hstep
    exact h.removed_or_kept hloses hinfo
  | find host port =>
    obtain ⟨reply', hheap, -⟩ := h.find hrounds (peerMatches host port)
    rw [heapStep, hheap] at hstep
    cases hstep
    exact Or.inl hinfo
  | findByHash hash =>
    obtain ⟨reply', hheap, -⟩ := h.find hrounds (hashMatches hash)
    rw [heapStep, hheap] at hstep
    cases hstep
    exact Or.inl hinfo
  | size =>
    cases hstep
    exact Or.inl hinfo

theorem run_data {rounds : Nat} {ops : List HeapOp} {address : Address} {info : NodeInfo} :
    ∀ {state : State} {table : LookupTable} {cells : List (Address × NodeInfo)},
      Represents state table cells → cells.length + ops.length ≤ rounds →
      StepsMeet (heapStep rounds) Admissible state ops →
      (∀ op ∈ ops, op.unlinks info = false) → (state.1 address).map Cell.data = some info →
      ∃ replies final, run (heapStep rounds) state ops = .ok (replies, final) ∧
        (final.1 address).map Cell.data = some info := by
  induction ops with
  | nil =>
    intro state table cells _ _ _ _ hinfo
    exact ⟨[], state, rfl, hinfo⟩
  | cons op ops ih =>
    rintro state table cells h hrounds ⟨hop, hops⟩ hkeeps hinfo
    rw [List.length_cons] at hrounds
    have hroom : cells.length ≤ rounds := by omega
    obtain ⟨reply, next, -, table', cells', hheap, -, -, hnext, hlength⟩ := h.step hroom .normal hop
    have hstays : (next.1 address).map Cell.data = some info := by
      rcases h.step_data hroom hop hheap hinfo with hsame | ⟨-, hunlinks⟩
      · exact hsame
      · rw [hkeeps op List.mem_cons_self] at hunlinks
        cases hunlinks
    obtain ⟨replies, final, hrun, hfinal⟩ := ih hnext (by omega) (hops _ next hheap)
      (fun other hother => hkeeps other (List.mem_cons_of_mem op hother)) hstays
    exact ⟨some reply :: replies, final, by simp only [run, hheap, hrun, ok_bind, pure_eq_ok], hfinal⟩

/-- **The table on the heap is the table of the list, and it leaves nothing behind.**  In
    every run from `lookup_table_create` in which `malloc` fails or returns unused
    addresses, freed ones among them: no access faults and every loop ends; each answer
    is that of the list, where a pointer is good and points to the peer it stands for;
    the chain from the head holds the peers of the list, the heap holds nothing else, and
    `lookup_table_destroy` frees every node once and leaves the heap empty. -/
theorem heap_refines_list (kind : MutexKind) {rounds : Nat} {ops : List HeapOp}
    (hops : StepsMeet (heapStep rounds) Admissible lookupTableCreate ops)
    (hrounds : ops.length ≤ rounds) :
    ∃ replies final replies' table cells,
      run (heapStep rounds) lookupTableCreate ops = .ok (replies.map some, final) ∧
      run (tableStep kind) ⟨[], .free, 0⟩ (ops.map HeapOp.onList) = .ok (replies', table) ∧
      List.Forall₂ SameReply replies replies' ∧
      Chain final.1 final.2.head cells ∧ cells.map Prod.snd = table.head ∧
      final.2.size = table.size ∧ (∀ address, final.1 address ≠ none ↔ address ∈ addresses cells) ∧
      lookupTableDestroy rounds final = .ok (some fun _ => none) := by
  obtain ⟨replies, final, replies', table, cells, hrun, hrun', hreplies, hfinal, hlength⟩ :=
    run_heapStep kind represents_create (by simpa using hrounds) hops
  rw [List.length_nil, Nat.zero_add] at hlength
  refine ⟨replies, final, replies', table, cells, hrun, hrun', hreplies, hfinal.chain, hfinal.peers,
    hfinal.size, fun address => ⟨hfinal.exact address, hfinal.chain.live⟩, ?_⟩
  exact hfinal.destroy (Nat.le_trans hlength hrounds)

theorem noNul_hostA : (0 : UInt8) ∉ [97] := by decide

theorem noNul_hostB : (0 : UInt8) ∉ [98] := by decide

def hostA : CString := ⟨[97], noNul_hostA⟩

def hostB : CString := ⟨[98], noNul_hostB⟩

def twoPeers : List HeapOp := [.add (some 1) hostA 10 (sampleHash 7), .add (some 2) hostB 20 (sampleHash 7)]

theorem twoPeers_admissible :
    StepsMeet (heapStep 9) Admissible lookupTableCreate
      (twoPeers ++ [.remove hostA 10, .add (some 1) hostA 11 (sampleHash 7)]) := by
  apply (stepsMeet_cons (heapStep 9) rfl).mpr
  refine ⟨rfl, (stepsMeet_cons (heapStep 9) rfl).mpr ⟨rfl, ?_⟩⟩
  refine (stepsMeet_cons (heapStep 9) rfl).mpr ⟨trivial, ?_⟩
  exact (stepsMeet_cons (heapStep 9) rfl).mpr ⟨rfl, trivial⟩

/-- The address of the removed peer is used again. -/
theorem heap_refines_list_reused_address :
    ∃ replies final, run (heapStep 9) lookupTableCreate
        (twoPeers ++ [.remove hostA 10, .add (some 1) hostA 11 (sampleHash 7)]) =
          .ok (replies, final) ∧
      lookupTableDestroy 9 final = .ok (some fun _ => none) := by
  obtain ⟨replies, final, -, -, -, hrun, -, -, -, -, -, -, hdestroy⟩ :=
    heap_refines_list .normal twoPeers_admissible (by decide)
  exact ⟨_, final, hrun, hdestroy⟩

/-- **A pointer that was found stays good until its peer is removed.**  After any run, let
    `lookup_table_find` return a pointer to a peer.  Through whatever calls follow, adds
    and removals of others among them, the pointer keeps pointing to that peer as long as
    no call is a removal that matches it; and the removal of the peer that was looked for
    frees the node under it. -/
theorem pointer_stays {rounds : Nat} {ops : List HeapOp} {replies : List (Option HeapReply)}
    {state : State} (hops : StepsMeet (heapStep rounds) Admissible lookupTableCreate ops)
    (hrounds : ops.length ≤ rounds)
    (hrun : run (heapStep rounds) lookupTableCreate ops = .ok (replies, state))
    {host : CString} {port : Int32} {address : Address} {info : NodeInfo}
    (hfound : heapStep rounds state (.find host port) =
      .ok (some (.pointer (some address) (some info)), state)) :
    (∀ more : List HeapOp, StepsMeet (heapStep rounds) Admissible state more →
      ops.length + more.length ≤ rounds → (∀ op ∈ more, op.unlinks info = false) →
      ∃ replies' final, run (heapStep rounds) state more = .ok (replies', final) ∧
        (final.1 address).map Cell.data = some info) ∧
    ∃ next, heapStep rounds state (.remove host port) = .ok (some (.code 1), next) ∧
      next.1 address = none := by
  obtain ⟨replies', final, listReplies, table, cells, hrun', -, -, h, hlength⟩ :=
    run_heapStep .normal represents_create (by simpa using hrounds) hops
  rw [hrun] at hrun'
  cases hrun'
  rw [List.length_nil, Nat.zero_add] at hlength
  have hroom : cells.length ≤ rounds := Nat.le_trans hlength hrounds
  obtain ⟨hfind, next, hcell⟩ := h.find_of_pointer hroom hfound
  have hinfo : (state.1 address).map Cell.data = some info := by
    rw [hcell]
    rfl
  constructor
  · intro more hmore hrounds' hkeeps
    exact run_data h (Nat.le_trans (Nat.add_le_add_right hlength _) hrounds') hmore hkeeps hinfo
  · obtain ⟨value, next, table', cells', hheap, hlist, -, -, hloses⟩ :=
      h.remove hroom .normal (peerMatches host port)
    have hany : table.head.any (peerMatches host port) = true := by
      rw [h.any_eq, firstMatch, hfind]
      rfl
    rw [PeerTable.removeMatching_eq .normal h.free, if_pos hany] at hlist
    cases hlist
    refine ⟨next, by simp only [heapStep, hheap, ok_bind, pure_eq_ok, codeReply], ?_⟩
    have hgone := hloses address
    rw [firstMatch, hfind, Option.map_some, if_pos rfl] at hgone
    exact Option.map_eq_none_iff.mp hgone

/-- The other peer is removed and comes back; then the peer itself is removed. -/
theorem pointer_stays_twoPeers :
    ∃ replies state info, run (heapStep 9) lookupTableCreate twoPeers = .ok (replies, state) ∧
      heapStep 9 state (.find hostA 10) = .ok (some (.pointer (some 1) (some info)), state) ∧
      (∃ replies' final, run (heapStep 9) state
          [.remove hostB 20, .add (some 2) hostB 21 (sampleHash 7)] = .ok (replies', final) ∧
        (final.1 1).map Cell.data = some info) ∧
      ∃ next, heapStep 9 state (.remove hostA 10) = .ok (some (.code 1), next) ∧
        next.1 1 = none := by
  have hops : StepsMeet (heapStep 9) Admissible lookupTableCreate twoPeers := by
    apply (stepsMeet_cons (heapStep 9) rfl).mpr
    exact ⟨rfl, (stepsMeet_cons (heapStep 9) rfl).mpr ⟨rfl, trivial⟩⟩
  refine ⟨_, _, _, rfl, rfl, ?_⟩
  obtain ⟨hstays, hremoved⟩ :=
    @pointer_stays 9 twoPeers _ _ hops (by decide) rfl hostA 10 1 _ rfl
  refine ⟨hstays _ ?_ (by decide) (by decide), hremoved⟩
  apply (stepsMeet_cons (heapStep 9) rfl).mpr
  exact ⟨trivial, (stepsMeet_cons (heapStep 9) rfl).mpr ⟨rfl, trivial⟩⟩

end Cdht.PeerTableHeap
