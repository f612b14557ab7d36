/-
  Cdht/PeerTableWire.lean
  =======================
  **Reading a serialized peer table from untrusted bytes.**

  `lookup_table_deserialize` reads a 64-bit record count from the first eight
  bytes, compares the length of its input with `8 + 70 * count` and then reads that
  many records.  The comparison is made modulo 2^64 while the loop is not, so a
  count for which the product wraps can pass the check and send the loop past the
  end of the data.  `deserializeLoop_cases` says once what the loop can do;
  `lookupTableDeserialize_cases` lifts that to the whole function, and
  `deserialize_in_bounds_iff` gives the exact inputs on which the check does its
  work.
-/
import Cdht.PeerTableSpec

namespace Cdht.PeerTable

open Cdht.Memory Cdht.ByteOrder Cdht.Format Cdht.Strings

/-! ### The records of a byte string -/

def nodeCount (data : Bytes) : Nat := leValue (data.take 8)

def announcedSize (data : Bytes) : Nat := 8 + RECORD_SIZE * nodeCount data

/-- The size check of the source: the announced size is taken modulo 2^64. -/
def PassesCheck (data : Bytes) : Prop :=
  8 ≤ data.length ∧ tableBytes (nodeCount data) ≤ data.length

instance (data : Bytes) : Decidable (PassesCheck data) :=
  inferInstanceAs (Decidable (_ ∧ _))

def recordAt (data : Bytes) (offset : Nat) (h : offset + RECORD_SIZE ≤ data.length) : NodeInfo where
  host := storedHost (slice data offset MAX_HOST_LEN)
  port := portOfBytes (slice data (offset + MAX_HOST_LEN) 4)
  hash := ⟨slice data (offset + MAX_HOST_LEN + 4) HASH_SIZE, length_slice (by
    simp only [RECORD_SIZE] at h
    omega)⟩
  host_stored := storedHost_storedHost _

def records (data : Bytes) : Nat → Nat → List NodeInfo
  | 0, _ => []
  | count + 1, offset =>
      if h : offset + RECORD_SIZE ≤ data.length then
        recordAt data offset h :: records data count (offset + RECORD_SIZE)
      else []

def tableOf (data : Bytes) : LookupTable :=
  ⟨(records data (nodeCount data) 8).reverse, .free, nodeCount data⟩

theorem length_records {data : Bytes} {count offset : Nat}
    (h : offset + count * RECORD_SIZE ≤ data.length) :
    (records data count offset).length = count := by
  induction count generalizing offset with
  | zero => rfl
  | succ count ih =>
    rw [Nat.succ_mul] at h
    have hhere : offset + RECORD_SIZE ≤ data.length := by omega
    rw [records, dif_pos hhere, List.length_cons, ih (by omega)]

/-! ### The loop -/

theorem createNode_record (data : Bytes) (offset : Nat) (h : offset + RECORD_SIZE ≤ data.length)
    (hhash : (slice data (offset + MAX_HOST_LEN + 4) HASH_SIZE).length = HASH_SIZE) :
    createNode true (slice data offset MAX_HOST_LEN)
        (portOfBytes (slice data (offset + MAX_HOST_LEN) 4)) ⟨_, hhash⟩ =
      some (recordAt data offset h) := rfl

theorem deserializeLoop_inside (node : Nat → Bool) {data : Bytes} {offset : Nat}
    (h : offset + RECORD_SIZE ≤ data.length) (remaining i : Nat) (table : LookupTable) :
    deserializeLoop node data (remaining + 1) i offset table =
      if node i then
        deserializeLoop node data remaining (i + 1) (offset + RECORD_SIZE)
          (added table (recordAt data offset h))
      else .ok (false, table) := by
  have hsize : RECORD_SIZE = MAX_HOST_LEN + 4 + HASH_SIZE := rfl
  rw [deserializeLoop, readArray_eq_ok (by omega), ok_bind]
  simp only [readArray_eq_ok (show offset + MAX_HOST_LEN + 4 ≤ data.length by omega),
    readArray_eq_ok (show offset + MAX_HOST_LEN + 4 + HASH_SIZE ≤ data.length by omega), ok_bind]
  cases hnode : node i with
  | true =>
    rw [createNode_record data offset h]
    simp only [if_true, hsize, Nat.add_assoc, added]
  | false => rfl

theorem deserializeLoop_past (node : Nat → Bool) {data : Bytes} {offset : Nat}
    (h : data.length < offset + RECORD_SIZE) (remaining i : Nat) (table : LookupTable) :
    ∃ index, data.length ≤ index ∧
      deserializeLoop node data (remaining + 1) i offset table = .error (.outOfBounds index) := by
  have hsize : RECORD_SIZE = MAX_HOST_LEN + 4 + HASH_SIZE := rfl
  rw [deserializeLoop]
  by_cases hhost : offset + MAX_HOST_LEN ≤ data.length
  · rw [readArray_eq_ok hhost, ok_bind]
    by_cases hport : offset + MAX_HOST_LEN + 4 ≤ data.length
    · simp only [readArray_eq_ok hport, ok_bind]
      rw [readArray_eq_error (by omega)]
      exact ⟨_, Nat.le_max_right _ _, rfl⟩
    · simp only [readArray_eq_error (Nat.lt_of_not_le hport)]
      exact ⟨_, Nat.le_max_right _ _, rfl⟩
  · rw [readArray_eq_error (Nat.lt_of_not_le hhost)]
    exact ⟨_, Nat.le_max_right _ _, rfl⟩

/-- **What the reading loop can do.**  It stops early because a node cannot be
    allocated, or it reads every record and prepends its node, or it reads past the
    end.  The last two are told apart by the exact size. -/
theorem deserializeLoop_cases (node : Nat → Bool) (data : Bytes) :
    ∀ (remaining i offset : Nat) (table : LookupTable), offset ≤ data.length →
      ((¬ ∀ j, node j = true) ∧ ∃ stopped, stopped.mutex = table.mutex ∧
        deserializeLoop node data remaining i offset table = .ok (false, stopped)) ∨
      (offset + remaining * RECORD_SIZE ≤ data.length ∧
        deserializeLoop node data remaining i offset table =
          .ok (true, ⟨(records data remaining offset).reverse ++ table.head, table.mutex,
            table.size + remaining⟩)) ∨
      (data.length < offset + remaining * RECORD_SIZE ∧
        ∃ index, data.length ≤ index ∧
          deserializeLoop node data remaining i offset table = .error (.outOfBounds index)) := by
  intro remaining
  induction remaining with
  | zero =>
    intro i offset table hoffset
    right; left
    exact ⟨by simpa using hoffset, rfl⟩
  | succ remaining ih =>
    intro i offset table hoffset
    rw [Nat.succ_mul]
    by_cases hfits : offset + RECORD_SIZE ≤ data.length
    · rw [deserializeLoop_inside node hfits]
      cases hnode : node i with
      | false =>
        left
        exact ⟨fun hall => by simp [hall i] at hnode, table, rfl, rfl⟩
      | true =>
        rw [if_pos rfl]
        rcases ih (i + 1) (offset + RECORD_SIZE) (added table (recordAt data offset hfits)) hfits with
          ⟨hnode, stopped, hmutex, hloop⟩ | ⟨hall, hloop⟩ | ⟨hpast, index, hindex, hloop⟩
        · left
          exact ⟨hnode, stopped, hmutex, hloop⟩
        · right; left
          refine ⟨by omega, ?_⟩
          rw [hloop, records, dif_pos hfits]
          simp only [added, List.reverse_cons, List.append_assoc, List.singleton_append,
            Nat.add_assoc, Nat.add_comm 1]
        · right; right
          exact ⟨by omega, index, hindex, hloop⟩
    · right; right
      exact ⟨by omega, deserializeLoop_past node (Nat.lt_of_not_le hfits) remaining i table⟩

/-! ### The whole function -/

/-- **What `lookup_table_deserialize` can do** with a byte string: answer NULL,
    because the check fails or an allocation does; answer the table of its records;
    or read past its end. -/
theorem lookupTableDeserialize_cases (kind : MutexKind) (alloc : Allocation) (data : Bytes) :
    ((PassesCheck data → alloc ≠ .succeeds) ∧
      lookupTableDeserialize kind alloc (some data) = .ok none) ∨
    (PassesCheck data ∧ announcedSize data ≤ data.length ∧
      lookupTableDeserialize kind alloc (some data) = .ok (some (tableOf data))) ∨
    (PassesCheck data ∧ data.length < announcedSize data ∧
      ∃ index, data.length ≤ index ∧
        lookupTableDeserialize kind alloc (some data) = .error (.outOfBounds index)) := by
  by_cases hshort : data.length < 8
  · left
    refine ⟨fun hpass => absurd hpass.1 (Nat.not_le.mpr hshort), ?_⟩
    rw [lookupTableDeserialize, if_pos hshort]
  have hlength : 8 ≤ data.length := Nat.le_of_not_lt hshort
  rcases hcreate : lookupTableCreate alloc with _ | table
  · left
    constructor
    · rintro - rfl
      cases hcreate
    · rw [lookupTableDeserialize, if_neg hshort]
      simp only [hcreate]
  obtain rfl := lookupTableCreate_eq_some hcreate
  obtain ⟨mutex, hlock, hunlock⟩ := @lock_of_free kind ⟨[], .free, 0⟩ rfl
  have hraw : readArray data 0 8 = .ok ⟨data.take 8, by simpa using hlength⟩ :=
    readArray_eq_ok (by simpa using hlength)
  have hrun : lookupTableDeserialize kind alloc (some data) =
      if data.length < tableBytes (nodeCount data) then .ok none
      else deserializeLoop alloc.node data (nodeCount data) 0 8 ⟨[], mutex, 0⟩ >>= fun result =>
        result.2.unlock kind >>= fun table =>
          if result.1 then .ok (some table)
          else lookupTableDestroy kind table >>= fun _ => .ok none := by
    rw [lookupTableDeserialize, if_neg hshort]
    simp only [hcreate, hraw, ok_bind, hlock, lookupTableDestroy_eq, pure_eq_ok, nodeCount]
    rfl
  rw [hrun]
  by_cases hcheck : data.length < tableBytes (nodeCount data)
  · left
    refine ⟨fun hpass => absurd hpass.2 (Nat.not_le.mpr hcheck), if_pos hcheck⟩
  have hpass : PassesCheck data := ⟨hlength, Nat.le_of_not_lt hcheck⟩
  rw [if_neg hcheck]
  have hexact : announcedSize data = 8 + nodeCount data * RECORD_SIZE := by
    rw [announcedSize, Nat.mul_comm]
  rw [hexact]
  rcases deserializeLoop_cases alloc.node data (nodeCount data) 0 8 ⟨[], mutex, 0⟩ hlength with
    ⟨hnode, stopped, hmutex, hloop⟩ | ⟨hfits, hloop⟩ | ⟨hpast, index, hindex, hloop⟩
  · left
    obtain ⟨head, stoppedMutex, size⟩ := stopped
    obtain rfl : stoppedMutex = mutex := hmutex
    constructor
    · rintro - rfl
      exact hnode fun _ => rfl
    · simp only [hloop, ok_bind, hunlock, lookupTableDestroy_eq, Bool.false_eq_true, if_false]
  · right; left
    refine ⟨hpass, hfits, ?_⟩
    simp only [hloop, ok_bind, hunlock, if_true, tableOf, List.append_nil, Nat.zero_add]
  · right; right
    exact ⟨hpass, hpast, index, hindex, by rw [hloop, error_bind]⟩

/-- A table that was read is the table of the records, and these fit in the data. -/
theorem eq_tableOf_of_deserialize {kind : MutexKind} {alloc : Allocation} {data : Bytes}
    {table : LookupTable} (h : lookupTableDeserialize kind alloc (some data) = .ok (some table)) :
    table = tableOf data ∧ announcedSize data ≤ data.length := by
  rcases lookupTableDeserialize_cases kind alloc data with
    ⟨-, hnull⟩ | ⟨-, hfits, htable⟩ | ⟨-, -, index, -, hfault⟩
  · rw [hnull] at h
    cases h
  · rw [htable] at h
    cases h
    exact ⟨rfl, hfits⟩
  · rw [hfault] at h
    cases h

/-! ### The size check -/

/-- The announced size is at most `data_size` above a positive multiple of 2^64:
    exactly then the wrapped size passes the check although the records do not fit. -/
def AnnouncesWrappedSize (data : Bytes) : Prop :=
  ∃ q, 1 ≤ q ∧ q * 2 ^ 64 ≤ announcedSize data ∧ announcedSize data ≤ q * 2 ^ 64 + data.length

theorem tableBytes_nodeCount (data : Bytes) :
    tableBytes (nodeCount data) = announcedSize data % 2 ^ 64 := by
  rw [tableBytes, announcedSize, Nat.mul_comm]

/-- Data that hold all the records they announce are read, if the allocations succeed. -/
theorem deserialize_of_fits (kind : MutexKind) {data : Bytes}
    (hfits : announcedSize data ≤ data.length) :
    lookupTableDeserialize kind .succeeds (some data) = .ok (some (tableOf data)) := by
  have hpass : PassesCheck data := by
    refine ⟨Nat.le_trans (Nat.le_add_right 8 _) hfits, ?_⟩
    rw [tableBytes_nodeCount]
    exact Nat.le_trans (Nat.mod_le _ _) hfits
  rcases lookupTableDeserialize_cases kind .succeeds data with
    ⟨hfail, -⟩ | ⟨-, -, htable⟩ | ⟨-, hshort, -⟩
  · exact absurd rfl (hfail hpass)
  · exact htable
  · exact absurd hfits (Nat.not_le.mpr hshort)

theorem announcedSize_lt_of_short {data : Bytes} (hshort : data.length < 8) :
    announcedSize data < 2 ^ 64 := by
  have hcount : nodeCount data < 256 ^ 7 := by
    have hlt := leValue_lt (data.take 8)
    have hpow : 256 ^ (data.take 8).length ≤ 256 ^ 7 := by
      apply Nat.pow_le_pow_right (by decide)
      rw [List.length_take]
      omega
    exact Nat.lt_of_lt_of_le hlt hpow
  have hsize : RECORD_SIZE = 70 := rfl
  rw [announcedSize, hsize]
  omega

/-- **The check accepts too much exactly on wrapped sizes.** -/
theorem passesCheck_exact_iff {data : Bytes} (hsize : data.length < 2 ^ 64) :
    (PassesCheck data → announcedSize data ≤ data.length) ↔ ¬ AnnouncesWrappedSize data := by
  unfold PassesCheck AnnouncesWrappedSize
  rw [tableBytes_nodeCount]
  have hdiv := Nat.div_add_mod (announcedSize data) (2 ^ 64)
  constructor
  · rintro hexact ⟨q, hq, hlow, hhigh⟩
    have hlength : 8 ≤ data.length := by
      by_contra hshort
      have hlt := announcedSize_lt_of_short (Nat.lt_of_not_le hshort)
      have hmul : 1 * 2 ^ 64 ≤ q * 2 ^ 64 := Nat.mul_le_mul_right _ hq
      omega
    have hmod : announcedSize data % 2 ^ 64 ≤ data.length := by
      omega
    have hfits := hexact ⟨hlength, hmod⟩
    omega
  · rintro hnone ⟨hlength, hmod⟩
    by_contra hpast
    apply hnone
    refine ⟨announcedSize data / 2 ^ 64, ?_, ?_, ?_⟩
    · omega
    · omega
    · omega

/-- **No read past the end, exactly when the announced size does not wrap into
    reach.**  For a byte string of any `size_t` length: `lookup_table_deserialize`
    keeps all its reads inside the data, whatever allocations succeed, if and only if
    `8 + 70 * node_count` is not within `data_size` above a positive multiple of 2^64;
    and the same condition decides whether its check accepts only data that holds all
    the announced records. -/
theorem deserialize_in_bounds_iff (data : Bytes) (hsize : data.length < 2 ^ 64) :
    ((∀ alloc index, lookupTableDeserialize .normal alloc (some data) ≠
        .error (.outOfBounds index)) ↔ ¬ AnnouncesWrappedSize data) ∧
    ((PassesCheck data → 8 + 70 * nodeCount data ≤ data.length) ↔
        ¬ AnnouncesWrappedSize data) := by
  have hexact := passesCheck_exact_iff hsize
  refine ⟨?_, hexact⟩
  rw [← hexact]
  constructor
  · intro hsafe hpass
    by_contra hpast
    rcases lookupTableDeserialize_cases .normal .succeeds data with
      ⟨hfail, -⟩ | ⟨-, hfits, -⟩ | ⟨-, -, index, -, hfault⟩
    · exact hfail hpass rfl
    · exact hpast hfits
    · exact hsafe .succeeds index hfault
  · intro hcheck alloc index hfault
    rcases lookupTableDeserialize_cases .normal alloc data with
      ⟨-, hnull⟩ | ⟨-, -, htable⟩ | ⟨hpass, hpast, -⟩
    · rw [hnull] at hfault
      cases hfault
    · rw [htable] at hfault
      cases hfault
    · exact absurd (hcheck hpass) (Nat.not_le.mpr hpast)

/-- An image of one record: 78 bytes, the count 1 and a record of zero bytes. -/
def oneRecord : Bytes := [1, 0, 0, 0, 0, 0, 0, 0] ++ List.replicate 70 0

theorem deserialize_in_bounds_oneRecord :
    PassesCheck oneRecord ∧ 8 + 70 * nodeCount oneRecord = oneRecord.length ∧
      ∀ alloc index, lookupTableDeserialize .normal alloc (some oneRecord) ≠
        .error (.outOfBounds index) := by
  refine ⟨by decide, by decide, ?_⟩
  apply (deserialize_in_bounds_iff oneRecord (by decide)).1.mpr
  rintro ⟨q, hq, hlow, -⟩
  have hannounced : announcedSize oneRecord = 78 := by decide
  rw [hannounced] at hlow
  omega

/-- Eight bytes that announce 2^63 records: `8 + 70 * 2^63` is 8 modulo 2^64. -/
def wrappingCount : Bytes := [0, 0, 0, 0, 0, 0, 0, 0x80]

theorem deserialize_reads_past_wrappingCount :
    PassesCheck wrappingCount ∧ ¬ 8 + 70 * nodeCount wrappingCount ≤ wrappingCount.length ∧
      lookupTableDeserialize .normal .succeeds (some wrappingCount) = .error (.outOfBounds 8) := by
  refine ⟨by decide, by decide, ?_⟩
  rfl

end Cdht.PeerTable
