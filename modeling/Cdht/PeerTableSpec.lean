/-
  Cdht/PeerTableSpec.lean
  =======================
  **What each operation of the peer table computes.**

  The loops of the source are the list operations `any`, `find?` and `eraseP`;
  the string and memory comparisons are equalities of peers and hashes; and every
  operation that starts with the mutex free ends with the mutex free.  Later files
  use these equations and do not unfold the operations again.
-/
import Cdht.PeerTable

namespace Cdht.PeerTable

open Cdht.Memory Cdht.ByteOrder Cdht.Format Cdht.Strings

/-- A hash of twenty equal bytes. -/
def sampleHash (byte : UInt8) : Hash := ⟨List.replicate HASH_SIZE byte, List.length_replicate⟩

/-! ### The loops -/

theorem existsLoop_eq_any (isMatch : NodeInfo → Bool) (nodes : List NodeInfo) :
    existsLoop isMatch nodes = nodes.any isMatch := by
  induction nodes with
  | nil => rfl
  | cons current next ih =>
    rw [existsLoop, ih, List.any_cons]
    cases isMatch current with
    | true => rfl
    | false => rfl

theorem findLoop_eq_find? (isMatch : NodeInfo → Bool) (nodes : List NodeInfo) :
    findLoop isMatch nodes = nodes.find? isMatch := by
  induction nodes with
  | nil => rfl
  | cons current next ih =>
    rw [findLoop, ih, List.find?_cons]
    cases isMatch current with
    | true => rfl
    | false => rfl

/-- **Unlinking** removes the first matching node, from the head or from behind
    `prev`, and keeps the order of the others. -/
theorem unlinkLoop_eq_eraseP (isMatch : NodeInfo → Bool) (nodes passed : List NodeInfo) :
    unlinkLoop isMatch passed nodes =
      (passed.reverse ++ nodes.eraseP isMatch, nodes.any isMatch) := by
  induction nodes generalizing passed with
  | nil => simp [unlinkLoop]
  | cons current next ih =>
    unfold unlinkLoop
    rw [List.any_cons]
    cases hcurrent : isMatch current with
    | true =>
      rw [List.eraseP_cons_of_pos hcurrent]
      cases passed with
      | nil => rfl
      | cons prev before => simp
    | false =>
      rw [List.eraseP_cons_of_neg (by simp [hcurrent]), if_neg (by simp), ih]
      simp

/-! ### Comparisons -/

def NodeInfo.peer (info : NodeInfo) : CString × Int32 := (CString.ofBuffer info.host, info.port)

def truncated (host : CString) : CString :=
  ⟨host.chars.take (MAX_HOST_LEN - 1), fun hmem => host.noNul (List.mem_of_mem_take hmem)⟩

theorem truncated_eq_self {host : CString} (h : host.strlen ≤ MAX_HOST_LEN - 1) :
    truncated host = host := by
  rw [CString.ext_iff_chars]
  exact List.take_of_length_le h

theorem peerMatches_iff (host : CString) (port : Int32) (info : NodeInfo) :
    peerMatches host port info = true ↔ info.peer = (host, port) := by
  rw [peerMatches, Bool.and_eq_true, decide_eq_true_eq, decide_eq_true_eq, strcmp_eq_zero_iff,
    cstr_eq_self host.noNul, NodeInfo.peer, Prod.mk.injEq, CString.ext_iff_chars]
  rfl

theorem hashMatches_iff (hash : Hash) (info : NodeInfo) :
    hashMatches hash info = true ↔ info.hash = hash := by
  rw [hashMatches, hashEqual, decide_eq_true_eq,
    memcmp_eq_zero_iff (info.hash.property.trans hash.property.symm), Subtype.ext_iff]

theorem cstr_storedHost (host : Bytes) :
    cstr (storedHost host) = (cstr host).take (MAX_HOST_LEN - 1) :=
  cstr_strncpy_nul host (MAX_HOST_LEN - 1)

theorem strlen_peer (info : NodeInfo) : info.peer.1.strlen ≤ MAX_HOST_LEN - 1 := by
  have hcstr : cstr info.host = (cstr info.host).take (MAX_HOST_LEN - 1) := by
    conv_lhs => rw [← info.host_stored, cstr_storedHost]
  have hlength := congrArg List.length hcstr
  rw [List.length_take] at hlength
  show (cstr info.host).length ≤ MAX_HOST_LEN - 1
  omega

theorem createNode_true (host : CString) (port : Int32) (hash : Hash) :
    ∃ info, createNode true host.chars port hash = some info ∧
      info.peer = (truncated host, port) ∧ info.hash = hash := by
  refine ⟨_, rfl, ?_, rfl⟩
  rw [NodeInfo.peer, Prod.mk.injEq, CString.ext_iff_chars]
  refine ⟨?_, rfl⟩
  show cstr (storedHost host.chars) = _
  rw [cstr_storedHost, cstr_eq_self host.noNul]
  rfl

/-- Unlinking the first match from a chain of distinct peers leaves the chain around
    it, in which its peer does not occur. -/
theorem eraseP_of_find {isMatch : NodeInfo → Bool} {nodes : List NodeInfo} {info : NodeInfo}
    (hdistinct : (nodes.map NodeInfo.peer).Nodup) (hfind : nodes.find? isMatch = some info) :
    ∃ before after, nodes = before ++ info :: after ∧
      nodes.eraseP isMatch = before ++ after ∧
      ∀ other ∈ before ++ after, other.peer ≠ info.peer := by
  obtain ⟨hmatch, before, after, hsplit, hbefore⟩ := List.find?_eq_some_iff_append.mp hfind
  refine ⟨before, after, hsplit, ?_, ?_⟩
  · have hskip : ∀ other ∈ before, ¬ isMatch other = true := by
      intro other hother
      simpa using hbefore other hother
    rw [hsplit, List.eraseP_append_right _ hskip, List.eraseP_cons_of_pos hmatch]
  · rw [hsplit, List.map_append, List.map_cons, List.nodup_middle, ← List.map_append] at hdistinct
    intro other hother heq
    exact (List.nodup_cons.mp hdistinct).1 (List.mem_map.mpr ⟨other, hother, heq⟩)

/-! ### The operations -/

theorem lookupTableCreate_eq_some {alloc : Allocation} {table : LookupTable}
    (h : lookupTableCreate alloc = some table) : table = ⟨[], .free, 0⟩ := by
  unfold lookupTableCreate at h
  split at h
  · split at h
    · exact (Option.some.inj h).symm
    · cases h
  · cases h

section Operations

variable (kind : MutexKind)

/-- **One critical section.**  A table whose mutex is free can be locked, and
    whatever happens to its chain and its counter, the unlock at the end frees the
    mutex again. -/
theorem lock_of_free {table : LookupTable} (hfree : table.mutex = .free) :
    ∃ mutex, table.lock kind = .ok { table with mutex := mutex } ∧
      ∀ head size, LookupTable.unlock kind ⟨head, mutex, size⟩ = .ok ⟨head, .free, size⟩ := by
  obtain ⟨mutex, hlock, hunlock⟩ := Mutex.lock_free kind
  refine ⟨mutex, ?_, ?_⟩
  · rw [LookupTable.lock, hfree, hlock, ok_bind, pure_eq_ok]
  · intro head size
    rw [LookupTable.unlock, hunlock, ok_bind, pure_eq_ok]

def added (table : LookupTable) (newNode : NodeInfo) : LookupTable :=
  { table with head := newNode :: table.head, size := table.size + 1 }

theorem lookupTableAdd_eq {table : LookupTable} (hfree : table.mutex = .free) (malloc : Bool)
    (host : CString) (port : Int32) (hash : Hash) :
    lookupTableAdd kind malloc table (some host) port (some hash) =
      .ok (if table.head.any (peerMatches host port) then (0, table)
        else match createNode malloc host.chars port hash with
          | none => (-1, table)
          | some newNode => (1, added table newNode)) := by
  obtain ⟨mutex, hlock, hunlock⟩ := lock_of_free kind hfree
  obtain ⟨head, tableMutex, size⟩ := table
  subst hfree
  simp only [lookupTableAdd, hlock, ok_bind, existsLoop_eq_any, hunlock, pure_eq_ok, added]
  split
  · rfl
  · rcases createNode malloc host.chars port hash with _ | newNode
    · rfl
    · rfl

def removed (isMatch : NodeInfo → Bool) (table : LookupTable) : LookupTable :=
  { table with
    head := table.head.eraseP isMatch
    size := if table.head.any isMatch then table.size - 1 else table.size }

theorem removeMatching_eq {table : LookupTable} (hfree : table.mutex = .free)
    (isMatch : NodeInfo → Bool) :
    removeMatching kind isMatch table =
      .ok (if table.head.any isMatch then 1 else 0, removed isMatch table) := by
  obtain ⟨mutex, hlock, hunlock⟩ := lock_of_free kind hfree
  obtain ⟨head, tableMutex, size⟩ := table
  subst hfree
  simp only [removeMatching, hlock, ok_bind, unlinkLoop_eq_eraseP, hunlock, pure_eq_ok, removed,
    List.reverse_nil, List.nil_append]

theorem findMatching_eq {table : LookupTable} (hfree : table.mutex = .free)
    (isMatch : NodeInfo → Bool) :
    findMatching kind isMatch table = .ok (table.head.find? isMatch, table) := by
  obtain ⟨mutex, hlock, hunlock⟩ := lock_of_free kind hfree
  obtain ⟨head, tableMutex, size⟩ := table
  subst hfree
  simp only [findMatching, hlock, ok_bind, findLoop_eq_find?, hunlock, pure_eq_ok]

theorem lookupTableSize_eq {table : LookupTable} (hfree : table.mutex = .free) :
    lookupTableSize kind table = .ok (table.size, table) := by
  obtain ⟨mutex, hlock, hunlock⟩ := lock_of_free kind hfree
  obtain ⟨head, tableMutex, size⟩ := table
  subst hfree
  simp only [lookupTableSize, hlock, ok_bind, hunlock, pure_eq_ok]

theorem lookupTableSerializedSize_eq {table : LookupTable} (hfree : table.mutex = .free) :
    lookupTableSerializedSize kind table = .ok (tableBytes table.size, table) := by
  obtain ⟨mutex, hlock, hunlock⟩ := lock_of_free kind hfree
  obtain ⟨head, tableMutex, size⟩ := table
  subst hfree
  simp only [lookupTableSerializedSize, hlock, ok_bind, hunlock, pure_eq_ok]

/-- **Serialization, apart from its locking**: the size check and the two stores. -/
theorem lookupTableSerialize_transparent {table : LookupTable} (hfree : table.mutex = .free)
    (buffer : Bytes) (bufferSize : Nat) :
    lookupTableSerialize .transparent table (some buffer) bufferSize =
      if bufferSize < tableBytes table.size then .ok ((-1, some buffer), table)
      else writeAt buffer 0 (leBytes 8 table.size) >>= fun buffer =>
        serializeLoop buffer 8 table.head >>= fun buffer => .ok ((0, some buffer), table) := by
  have hlock : table.lock .transparent = .ok table := rfl
  have hunlock : table.unlock .transparent = .ok table := rfl
  unfold lookupTableSerialize
  simp only [hlock, lookupTableSerializedSize_eq _ hfree, hunlock, ok_bind, pure_eq_ok]

theorem lookupTablePrint_eq {table : LookupTable} (hfree : table.mutex = .free) :
    ∃ text, lookupTablePrint kind table = .ok (text, table) := by
  obtain ⟨mutex, hlock, hunlock⟩ := lock_of_free kind hfree
  obtain ⟨head, tableMutex, size⟩ := table
  subst hfree
  simp only [lookupTablePrint, hlock, ok_bind, hunlock, pure_eq_ok]
  exact ⟨_, rfl⟩

theorem lookupTableDestroy_eq {table : LookupTable} (hfree : table.mutex = .free) :
    lookupTableDestroy kind table = .ok () := by
  obtain ⟨mutex, hlock, hunlock⟩ := lock_of_free kind hfree
  simp only [lookupTableDestroy, hlock, ok_bind, hunlock, pure_eq_ok]

end Operations

end Cdht.PeerTable
