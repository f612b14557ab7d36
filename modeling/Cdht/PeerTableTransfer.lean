/-
  Cdht/PeerTableTransfer.lean
  ===========================
  **A peer table written to a buffer and read back.**

  `lookup_table_serialize` writes the count and then the records from the head of
  the chain on; `lookup_table_deserialize` reads them in that order and prepends
  each, so the chain comes out reversed, with every record as it was
  (`transfersTo_reversed`).  Twice over, nothing changes.  Once over, a lookup can
  change its answer: the first of several peers with one hash becomes the last.

  The serialization locks its mutex twice, so all statements here take the lock
  operations as transparent.
-/
import Cdht.PeerTableUniqueness

namespace Cdht.PeerTableTransfer

open Cdht.Memory Cdht.Machine Cdht.ByteOrder Cdht.Strings Cdht.PeerTable Cdht.PeerTableUniqueness

/-! ### First matches from either end -/

section FirstMatch

variable {α κ : Type} [DecidableEq κ] (key : α → κ)

theorem find?_reverse_cons_of_ne {first : α} {wanted : κ} (hne : key first ≠ wanted)
    (rest : List α) :
    (first :: rest).reverse.find? (fun item => key item = wanted) =
      rest.reverse.find? (fun item => key item = wanted) := by
  rw [List.reverse_cons, List.find?_append, List.find?_singleton, if_neg (by simpa using hne),
    Option.or_none]

/-- With pairwise different keys, it does not matter from which end one searches. -/
theorem find?_reverse_of_nodup {items : List α} (hkeys : (items.map key).Nodup) (wanted : κ) :
    items.reverse.find? (fun item => key item = wanted) =
      items.find? (fun item => key item = wanted) := by
  induction items with
  | nil => rfl
  | cons first rest ih =>
    rw [List.map_cons, List.nodup_cons] at hkeys
    by_cases hfirst : key first = wanted
    · have hrest : rest.reverse.find? (fun item => key item = wanted) = none := by
        rw [List.find?_eq_none]
        intro item hitem hmatch
        apply hkeys.1
        rw [hfirst, ← of_decide_eq_true hmatch]
        exact List.mem_map_of_mem (List.mem_reverse.mp hitem)
      rw [List.reverse_cons, List.find?_append, hrest, Option.none_or, List.find?_singleton,
        List.find?_cons_of_pos (by simpa using hfirst), if_pos (by simpa using hfirst)]
    · rw [find?_reverse_cons_of_ne key hfirst, List.find?_cons_of_neg (by simpa using hfirst)]
      exact ih hkeys.2

/-- **Both ends find the same exactly when no key repeats.** -/
theorem find?_reverse_eq_iff {items : List α} (hitems : items.Nodup) :
    (∀ wanted, items.reverse.find? (fun item => key item = wanted) =
      items.find? (fun item => key item = wanted)) ↔ (items.map key).Nodup := by
  constructor
  · intro hsame
    induction items with
    | nil => exact List.nodup_nil
    | cons first rest ih =>
      rw [List.nodup_cons] at hitems
      -- from the other end, a second item with this key would be met before `first`
      have hfirst : key first ∉ rest.map key := by
        intro hmem
        obtain ⟨second, hsecond, hkey⟩ := List.mem_map.mp hmem
        have hfound : (rest.reverse.find? (fun item => key item = key first)).isSome := by
          rw [List.find?_isSome]
          exact ⟨second, List.mem_reverse.mpr hsecond, decide_eq_true hkey⟩
        obtain ⟨last, hlast⟩ := Option.isSome_iff_exists.mp hfound
        have hboth := hsame (key first)
        rw [List.reverse_cons, List.find?_append, hlast, Option.some_or,
          List.find?_cons_of_pos (by simp)] at hboth
        apply hitems.1
        rw [← Option.some.inj hboth]
        exact List.mem_reverse.mp (List.mem_of_find?_eq_some hlast)
      rw [List.map_cons, List.nodup_cons]
      refine ⟨hfirst, ih hitems.2 ?_⟩
      intro wanted
      by_cases hwanted : key first = wanted
      · subst hwanted
        have habsent : ∀ item ∈ rest, ¬ decide (key item = key first) = true := by
          intro item hitem hmatch
          apply hfirst
          rw [← of_decide_eq_true hmatch]
          exact List.mem_map_of_mem hitem
        rw [List.find?_eq_none.mpr habsent, List.find?_eq_none]
        intro item hitem
        exact habsent item (List.mem_reverse.mp hitem)
      · have hboth := hsame wanted
        rwa [find?_reverse_cons_of_ne key hwanted,
          List.find?_cons_of_neg (by simpa using hwanted)] at hboth
  · intro hkeys wanted
    exact find?_reverse_of_nodup key hkeys wanted

end FirstMatch

/-! ### Writing -/

def recordBytes (info : NodeInfo) : Bytes := info.host ++ portBytes info.port ++ info.hash.val

/-- The format: the count in 8 bytes, then one record for each node in list order. -/
def tableImage (nodes : List NodeInfo) : Bytes :=
  leBytes 8 nodes.length ++ nodes.flatMap recordBytes

theorem length_storedHost (host : Bytes) : (storedHost host).length = MAX_HOST_LEN := by
  rw [storedHost, List.length_append, length_strncpy]
  rfl

theorem length_host (info : NodeInfo) : info.host.length = MAX_HOST_LEN := by
  rw [← info.host_stored, length_storedHost]

@[simp] theorem length_portBytes (port : Int32) : (portBytes port).length = 4 := length_leBytes 4 _

theorem length_recordBytes (info : NodeInfo) : (recordBytes info).length = RECORD_SIZE := by
  rw [recordBytes, List.length_append, List.length_append, length_host, length_portBytes,
    info.hash.property]
  rfl

theorem length_flatMap_recordBytes (nodes : List NodeInfo) :
    (nodes.flatMap recordBytes).length = nodes.length * RECORD_SIZE := by
  induction nodes with
  | nil => rw [List.flatMap_nil, List.length_nil, List.length_nil, Nat.zero_mul]
  | cons info nodes ih =>
    rw [List.flatMap_cons, List.length_append, length_recordBytes, ih, List.length_cons,
      Nat.succ_mul, Nat.add_comm]

theorem length_tableImage (nodes : List NodeInfo) :
    (tableImage nodes).length = 8 + nodes.length * RECORD_SIZE := by
  rw [tableImage, List.length_append, length_leBytes, length_flatMap_recordBytes]

/-- One record, in its three stores. -/
theorem serializeLoop_record {before old after : Bytes} (info : NodeInfo) (next : List NodeInfo)
    (hold : old.length = RECORD_SIZE) :
    serializeLoop (before ++ old ++ after) before.length (info :: next) =
      serializeLoop (before ++ recordBytes info ++ after)
        (before ++ recordBytes info).length next := by
  have hsize : RECORD_SIZE = MAX_HOST_LEN + 4 + HASH_SIZE := rfl
  obtain ⟨host, port, hash, hhost, hport, hhash, rfl⟩ : ∃ host port hash : Bytes,
      host.length = MAX_HOST_LEN ∧ port.length = 4 ∧ hash.length = HASH_SIZE ∧
        old = host ++ port ++ hash := by
    refine ⟨slice old 0 MAX_HOST_LEN, slice old (0 + MAX_HOST_LEN) 4,
      slice old (0 + (MAX_HOST_LEN + 4)) HASH_SIZE, length_slice (by omega),
      length_slice (by omega), length_slice (by omega), ?_⟩
    rw [slice_append_slice, slice_append_slice, slice, List.drop_zero, ← hsize, ← hold,
      List.take_length]
  have hoffset : (before ++ info.host).length = before.length + MAX_HOST_LEN := by
    rw [List.length_append, length_host]
  have hoffset' : (before ++ info.host ++ portBytes info.port).length =
      before.length + MAX_HOST_LEN + 4 := by
    rw [List.length_append, hoffset, length_portBytes]
  have hstoreHost : writeAt (before ++ (host ++ port ++ hash) ++ after) before.length info.host =
      .ok (before ++ info.host ++ port ++ (hash ++ after)) := by
    have hwrite := writeAt_append before host (port ++ (hash ++ after)) info.host
      (hhost.trans (length_host info).symm)
    simpa only [List.append_assoc] using hwrite
  have hstorePort : writeAt (before ++ info.host ++ port ++ (hash ++ after))
      (before.length + MAX_HOST_LEN) (portBytes info.port) =
      .ok (before ++ info.host ++ portBytes info.port ++ (hash ++ after)) := by
    rw [← hoffset]
    apply writeAt_append
    rw [hport, length_portBytes]
  have hstoreHash : writeAt (before ++ info.host ++ portBytes info.port ++ (hash ++ after))
      (before.length + MAX_HOST_LEN + 4) info.hash.val =
      .ok (before ++ recordBytes info ++ after) := by
    have hwrite := writeAt_append (before ++ info.host ++ portBytes info.port) hash after
      info.hash.val (hhash.trans info.hash.property.symm)
    rw [hoffset'] at hwrite
    simpa only [recordBytes, List.append_assoc] using hwrite
  rw [serializeLoop, hstoreHost, ok_bind]
  simp only [hstorePort, hstoreHash, ok_bind]
  have hend : (before ++ recordBytes info).length =
      before.length + MAX_HOST_LEN + 4 + HASH_SIZE := by
    rw [List.length_append, length_recordBytes]
    omega
  rw [hend]

/-- **The writing loop** replaces as many bytes as the records need and leaves what
    stands before and behind them. -/
theorem serializeLoop_eq (nodes : List NodeInfo) : ∀ {before old after : Bytes},
    old.length = nodes.length * RECORD_SIZE →
      serializeLoop (before ++ old ++ after) before.length nodes =
        .ok (before ++ nodes.flatMap recordBytes ++ after) := by
  induction nodes with
  | nil =>
    intro before old after hold
    have hnil : old = [] := by
      apply List.eq_nil_of_length_eq_zero
      rw [hold, List.length_nil, Nat.zero_mul]
    rw [hnil]
    rfl
  | cons info nodes ih =>
    intro before old after hold
    rw [List.length_cons, Nat.succ_mul] at hold
    have hsplit : before ++ old ++ after =
        before ++ old.take RECORD_SIZE ++ (old.drop RECORD_SIZE ++ after) := by
      conv_lhs => rw [← List.take_append_drop RECORD_SIZE old]
      simp only [List.append_assoc]
    have hhere : (old.take RECORD_SIZE).length = RECORD_SIZE := by
      rw [List.length_take]
      omega
    have hrest : (old.drop RECORD_SIZE).length = nodes.length * RECORD_SIZE := by
      rw [List.length_drop]
      omega
    rw [hsplit, serializeLoop_record info nodes hhere, ← List.append_assoc, ih hrest,
      List.flatMap_cons, ← List.append_assoc]

/-- **`lookup_table_serialize`** fills the front of the buffer with the table's image
    and leaves the rest of the buffer, and the table, as they are. -/
theorem lookupTableSerialize_eq {table : LookupTable} (hcounted : Counted table)
    (hsize : 8 + table.size * RECORD_SIZE < 2 ^ 64) {old after : Bytes} {bufferSize : Nat}
    (hold : old.length = 8 + table.size * RECORD_SIZE)
    (hbuffer : 8 + table.size * RECORD_SIZE ≤ bufferSize) :
    lookupTableSerialize .transparent table (some (old ++ after)) bufferSize =
      .ok ((0, some (tableImage table.head ++ after)), table) := by
  have hrequired : tableBytes table.size = 8 + table.size * RECORD_SIZE := Nat.mod_eq_of_lt hsize
  obtain ⟨count, nodes, hcount, rfl⟩ : ∃ count nodes : Bytes, count.length = 8 ∧
      old = count ++ nodes := by
    refine ⟨old.take 8, old.drop 8, ?_, (List.take_append_drop 8 old).symm⟩
    rw [List.length_take]
    omega
  have hnodes : nodes.length = table.head.length * RECORD_SIZE := by
    rw [List.length_append] at hold
    rw [← hcounted.size]
    omega
  have hstoreCount : writeAt (count ++ nodes ++ after) 0 (leBytes 8 table.size) =
      .ok (leBytes 8 table.size ++ nodes ++ after) := by
    have hwrite := writeAt_append [] count (nodes ++ after) (leBytes 8 table.size)
      (hcount.trans (length_leBytes 8 _).symm)
    simpa only [List.nil_append, List.length_nil, List.append_assoc] using hwrite
  have hloop : serializeLoop (leBytes 8 table.size ++ nodes ++ after) 8 table.head =
      .ok (tableImage table.head ++ after) := by
    have hloop := @serializeLoop_eq table.head (leBytes 8 table.size) nodes after hnodes
    rw [length_leBytes] at hloop
    rw [hloop, tableImage, hcounted.size]
  rw [lookupTableSerialize_transparent hcounted.free, hrequired, if_neg (Nat.not_lt.mpr hbuffer),
    hstoreCount, ok_bind, hloop, ok_bind]

/-! ### Reading -/

theorem portOfBytes_portBytes (port : Int32) : portOfBytes (portBytes port) = port := by
  have hlt : port.toUInt32.toNat % 256 ^ 4 = port.toUInt32.toNat :=
    Nat.mod_eq_of_lt port.toUInt32.toNat_lt
  rw [portOfBytes, portBytes, leValue_leBytes, hlt, UInt32.ofNat_toNat]
  rfl

theorem recordAt_recordBytes {before after : Bytes} (info : NodeInfo)
    (h : before.length + RECORD_SIZE ≤ (before ++ recordBytes info ++ after).length) :
    recordAt (before ++ recordBytes info ++ after) before.length h = info := by
  have hhost : slice (before ++ recordBytes info ++ after) before.length MAX_HOST_LEN =
      info.host := by
    have hmiddle : slice (before ++ info.host ++ (portBytes info.port ++ info.hash.val ++ after))
        before.length MAX_HOST_LEN = info.host := slice_middle rfl (length_host info).symm
    simpa only [recordBytes, List.append_assoc] using hmiddle
  have hport : slice (before ++ recordBytes info ++ after) (before.length + MAX_HOST_LEN) 4 =
      portBytes info.port := by
    have hmiddle : slice (before ++ info.host ++ portBytes info.port ++ (info.hash.val ++ after))
        (before.length + MAX_HOST_LEN) 4 = portBytes info.port := by
      apply slice_middle
      · rw [List.length_append, length_host]
      · rw [length_portBytes]
    simpa only [recordBytes, List.append_assoc] using hmiddle
  have hhash : slice (before ++ recordBytes info ++ after) (before.length + MAX_HOST_LEN + 4)
      HASH_SIZE = info.hash.val := by
    have hmiddle : slice (before ++ info.host ++ portBytes info.port ++ info.hash.val ++ after)
        (before.length + MAX_HOST_LEN + 4) HASH_SIZE = info.hash.val := by
      apply slice_middle
      · rw [List.length_append, List.length_append, length_host, length_portBytes]
      · exact info.hash.property.symm
    simpa only [recordBytes, List.append_assoc] using hmiddle
  obtain ⟨host, port, hash, hstored⟩ := info
  simp only [recordAt, NodeInfo.mk.injEq, hhost, hport]
  exact ⟨hstored, portOfBytes_portBytes port, Subtype.ext hhash⟩

/-- **The records of an image are the nodes it was made from.** -/
theorem records_flatMap (nodes : List NodeInfo) : ∀ before after : Bytes,
    records (before ++ nodes.flatMap recordBytes ++ after) nodes.length before.length = nodes := by
  induction nodes with
  | nil =>
    intro before after
    rfl
  | cons info nodes ih =>
    intro before after
    have hsplit : before ++ (info :: nodes).flatMap recordBytes ++ after =
        before ++ recordBytes info ++ (nodes.flatMap recordBytes ++ after) := by
      simp only [List.flatMap_cons, List.append_assoc]
    have hfits : before.length + RECORD_SIZE ≤
        (before ++ recordBytes info ++ (nodes.flatMap recordBytes ++ after)).length := by
      simp only [List.length_append, length_recordBytes]
      omega
    have hend : before.length + RECORD_SIZE = (before ++ recordBytes info).length := by
      rw [List.length_append, length_recordBytes]
    rw [hsplit, List.length_cons, records, dif_pos hfits, recordAt_recordBytes, hend,
      ← List.append_assoc, ih]

theorem nodeCount_tableImage {nodes : List NodeInfo} (h : nodes.length < 2 ^ 64) :
    nodeCount (tableImage nodes) = nodes.length := by
  have hcount : (tableImage nodes).take 8 = leBytes 8 nodes.length := by
    rw [tableImage, List.take_left' (length_leBytes 8 _)]
  rw [nodeCount, hcount, leValue_leBytes]
  exact Nat.mod_eq_of_lt h

theorem lookupTableDeserialize_tableImage {nodes : List NodeInfo}
    (hsize : 8 + nodes.length * RECORD_SIZE < 2 ^ 64) :
    lookupTableDeserialize .transparent .succeeds (some (tableImage nodes)) =
      .ok (some ⟨nodes.reverse, .free, nodes.length⟩) := by
  have hrecord : RECORD_SIZE = 70 := rfl
  have hcount : nodeCount (tableImage nodes) = nodes.length := by
    apply nodeCount_tableImage
    rw [hrecord] at hsize
    omega
  have hannounced : announcedSize (tableImage nodes) = (tableImage nodes).length := by
    rw [announcedSize, hcount, length_tableImage, Nat.mul_comm]
  have hrecords : records (tableImage nodes) nodes.length 8 = nodes := by
    have hread := records_flatMap nodes (leBytes 8 nodes.length) []
    rwa [List.append_nil, length_leBytes] at hread
  rw [deserialize_of_fits .transparent (Nat.le_of_eq hannounced), tableOf, hcount, hrecords]

/-! ### There and back -/

/-- `lookup_table_serialize` leaves `bytes` in every buffer of
    `lookup_table_serialized_size` bytes, and the table as it is. -/
def SerializesTo (table : LookupTable) (bytes : Bytes) : Prop :=
  lookupTableSerializedSize .transparent table = .ok (bytes.length, table) ∧
    ∀ buffer : Bytes, buffer.length = bytes.length →
      lookupTableSerialize .transparent table (some buffer) buffer.length =
        .ok ((0, some bytes), table)

def TransfersTo (table : LookupTable) (bytes : Bytes) (table' : LookupTable) : Prop :=
  SerializesTo table bytes ∧
    lookupTableDeserialize .transparent .succeeds (some bytes) = .ok (some table')

/-- A table that adds and removals make of a created one. -/
def Reached (ops : List UpdateOp) (table : LookupTable) : Prop :=
  ∃ alloc start values, lookupTableCreate alloc = some start ∧
    run updateStep start ops = .ok (values, table)

def reversed (table : LookupTable) : LookupTable := { table with head := table.head.reverse }

theorem counted_reversed {table : LookupTable} (h : Counted table) : Counted (reversed table) := by
  refine ⟨h.free, ?_⟩
  show table.size = table.head.reverse.length
  rw [List.length_reverse, h.size]

theorem Reached.counted {ops : List UpdateOp} {table : LookupTable} (h : Reached ops table) :
    Counted table := by
  obtain ⟨alloc, start, values, hcreate, hrun⟩ := h
  obtain rfl := lookupTableCreate_eq_some hcreate
  exact run_invariant updateStep Counted updateStep_counted ops _ values table ⟨rfl, rfl⟩ hrun

/-- **A transfer reverses the chain**, and changes nothing else. -/
theorem transfersTo_reversed {table : LookupTable} (hcounted : Counted table)
    (hsize : 8 + 70 * table.size < 2 ^ 64) :
    TransfersTo table (tableImage table.head) (reversed table) := by
  have hbytes : 8 + table.size * RECORD_SIZE < 2 ^ 64 := by
    rwa [Nat.mul_comm] at hsize
  have hlength : (tableImage table.head).length = 8 + table.size * RECORD_SIZE := by
    rw [length_tableImage, hcounted.size]
  refine ⟨⟨?_, ?_⟩, ?_⟩
  · rw [lookupTableSerializedSize_eq _ hcounted.free, tableBytes, Nat.mod_eq_of_lt hbytes, hlength]
  · intro buffer hbuffer
    have hexact : buffer.length = 8 + table.size * RECORD_SIZE := hbuffer.trans hlength
    have hserialize := @lookupTableSerialize_eq table hcounted hbytes buffer [] buffer.length hexact
      (Nat.le_of_eq hexact.symm)
    rwa [List.append_nil, List.append_nil] at hserialize
  · rw [hcounted.size] at hbytes
    rw [lookupTableDeserialize_tableImage hbytes, reversed, hcounted.free, hcounted.size]

/-- **Exact round trip.**  For every table that any adds and removals lead to, with
    hosts of any length: reading the serialized bytes back gives a table of the same
    size whose list is the reverse of the original one, and doing both a second time
    gives back the original list, which serializes to the original bytes. -/
theorem table_round_trip (ops : List UpdateOp) (table : LookupTable) (hreached : Reached ops table)
    (hsize : 8 + 70 * table.size < 2 ^ 64) :
    ∃ bytes table' bytes' table'',
      TransfersTo table bytes table' ∧ table'.size = table.size ∧
        table'.head = table.head.reverse ∧
      TransfersTo table' bytes' table'' ∧ table''.size = table.size ∧ table''.head = table.head ∧
      SerializesTo table'' bytes := by
  have hcounted := hreached.counted
  have htwice : reversed (reversed table) = table := by
    rw [reversed, reversed, List.reverse_reverse]
  have hfirst := transfersTo_reversed hcounted hsize
  have hsecond := transfersTo_reversed (counted_reversed hcounted) hsize
  rw [htwice] at hsecond
  exact ⟨_, _, _, table, hfirst, rfl, rfl, hsecond, rfl, rfl, hfirst.1⟩

/-- The node that `addHost n` links. -/
def hostNode (n : Nat) : NodeInfo :=
  ⟨storedHost (hostOfLength n).chars, 1, sampleHash 7, storedHost_storedHost _⟩

def twoHosts : LookupTable := ⟨[hostNode 2, hostNode 1], .free, 2⟩

theorem twoHosts_reached : Reached [addHost 1, addHost 2] twoHosts :=
  ⟨.succeeds, ⟨[], .free, 0⟩, [1, 1], rfl, by decide⟩

theorem table_round_trip_twoHosts :
    ∃ bytes table' bytes' table'', TransfersTo twoHosts bytes table' ∧
      TransfersTo table' bytes' table'' ∧ table''.head = twoHosts.head := by
  obtain ⟨bytes, table', bytes', table'', hfirst, -, -, hsecond, -, hhead, -⟩ :=
    table_round_trip [addHost 1, addHost 2] twoHosts twoHosts_reached (by decide)
  exact ⟨bytes, table', bytes', table'', hfirst, hsecond, hhead⟩

/-! ### Lookups on a transferred table -/

/-- The call passes no host longer than `MAX_HOST_LEN` has room for. -/
def HostFits : UpdateOp → Prop
  | .add _ (some host) _ _ => host.strlen ≤ MAX_HOST_LEN - 1
  | .remove (some host) _ => host.strlen ≤ MAX_HOST_LEN - 1
  | _ => True

theorem keepsUnique_of_hostFits {op : UpdateOp} (h : HostFits op) (table : LookupTable) :
    KeepsUnique table op := by
  cases op with
  | add malloc host port hash =>
    cases malloc with
    | false => trivial
    | true =>
      rcases host with _ | host
      · trivial
      rcases hash with _ | hash
      · trivial
      intro hlong
      exact absurd h (Nat.not_le.mpr hlong)
  | remove host port => trivial
  | removeByHash hash => trivial

theorem Reached.distinct {ops : List UpdateOp} {table : LookupTable} (h : Reached ops table)
    (hfits : ∀ op ∈ ops, HostFits op) : (table.head.map NodeInfo.peer).Nodup := by
  obtain ⟨alloc, start, values, hcreate, hrun⟩ := h
  have hstart : UniquePeers start :=
    (@origin_unique_iff (.created alloc) start hcreate).mpr trivial
  have halong : Along updateStep UniquePeers start ops := by
    refine along_of_meet updateStep UniquePeers KeepsUnique ?_ ops start hstart ?_
    · intro table op value next hunique hkeeps hstep
      exact (updateStep_unique_iff table op value next hunique hstep).mpr hkeeps
    · apply stepsMeet_of_forall
      intro table op hop
      exact keepsUnique_of_hostFits (hfits op hop) table
  exact (halong.final updateStep hrun).distinct

/-- The three lookups answer the same on both tables, with equal contents. -/
structure AnswersAlike (table table' : LookupTable) : Prop where
  find : ∀ host port, ∃ info, lookupTableFind .transparent table (some host) port =
      .ok (info, table) ∧
    lookupTableFind .transparent table' (some host) port = .ok (info, table')
  findByHash : ∀ hash, ∃ info, lookupTableFindByHash .transparent table (some hash) =
      .ok (info, table) ∧
    lookupTableFindByHash .transparent table' (some hash) = .ok (info, table')
  size : ∃ size, lookupTableSize .transparent table = .ok (size, table) ∧
    lookupTableSize .transparent table' = .ok (size, table')

theorem peerMatches_eq (host : CString) (port : Int32) :
    peerMatches host port = fun info => decide (info.peer = (host, port)) := by
  funext info
  rw [Bool.eq_iff_iff, peerMatches_iff, decide_eq_true_eq]

theorem hashMatches_eq (hash : Hash) : hashMatches hash = fun info => decide (info.hash = hash) := by
  funext info
  rw [Bool.eq_iff_iff, hashMatches_iff, decide_eq_true_eq]

/-- **Only a repeated hash tells a table from its reverse.** -/
theorem answersAlike_reversed_iff {table : LookupTable} (hfree : table.mutex = .free)
    (hdistinct : (table.head.map NodeInfo.peer).Nodup) :
    AnswersAlike table (reversed table) ↔ (table.head.map NodeInfo.hash).Nodup := by
  have hfree' : (reversed table).mutex = .free := hfree
  have hnodes : table.head.Nodup := List.Nodup.of_map NodeInfo.peer hdistinct
  rw [← find?_reverse_eq_iff NodeInfo.hash hnodes]
  constructor
  · intro halike hash
    obtain ⟨info, hfind, hfind'⟩ := halike.findByHash hash
    rw [lookupTableFindByHash, findMatching_eq _ hfree, hashMatches_eq] at hfind
    rw [lookupTableFindByHash, findMatching_eq _ hfree', hashMatches_eq] at hfind'
    cases hfind
    exact congrArg Prod.fst (Except.ok.inj hfind')
  · intro hsame
    refine ⟨?_, ?_, ?_⟩
    · intro host port
      refine ⟨_, findMatching_eq _ hfree _, ?_⟩
      rw [lookupTableFind, findMatching_eq _ hfree', peerMatches_eq]
      show Except.ok (table.head.reverse.find? _, _) = _
      rw [find?_reverse_of_nodup NodeInfo.peer hdistinct]
    · intro hash
      refine ⟨_, findMatching_eq _ hfree _, ?_⟩
      rw [lookupTableFindByHash, findMatching_eq _ hfree', hashMatches_eq]
      show Except.ok (table.head.reverse.find? _, _) = _
      rw [hsame hash]
    · exact ⟨table.size, lookupTableSize_eq _ hfree, lookupTableSize_eq _ hfree'⟩

/-- **A transferred table answers like the original exactly if no hash repeats.**
    For every table that adds and removals with hosts of at most 45 bytes lead to:
    it can be transferred, and every lookup by peer, every lookup by hash and the
    size are the same before and after if and only if no two of its entries carry
    the same hash. -/
theorem transfer_answers_alike_iff (ops : List UpdateOp) (table : LookupTable)
    (hreached : Reached ops table) (hfits : ∀ op ∈ ops, HostFits op)
    (hsize : 8 + 70 * table.size < 2 ^ 64) :
    ∃ bytes table', TransfersTo table bytes table' ∧
      (AnswersAlike table table' ↔ (table.head.map NodeInfo.hash).Nodup) :=
  ⟨_, _, transfersTo_reversed hreached.counted hsize,
    answersAlike_reversed_iff hreached.counted.free (hreached.distinct hfits)⟩

/-- Two hosts that are added with hashes of their own. -/
def addHashes : List UpdateOp :=
  [.add true (some (hostOfLength 1)) 1 (some (sampleHash 7)),
    .add true (some (hostOfLength 2)) 1 (some (sampleHash 8))]

def twoHashes : LookupTable :=
  ⟨[⟨storedHost (hostOfLength 2).chars, 1, sampleHash 8, storedHost_storedHost _⟩, hostNode 1],
    .free, 2⟩

theorem transfer_answers_alike_twoHashes :
    ∃ bytes table', TransfersTo twoHashes bytes table' ∧ AnswersAlike twoHashes table' := by
  have hreached : Reached addHashes twoHashes :=
    ⟨.succeeds, ⟨[], .free, 0⟩, [1, 1], rfl, by decide⟩
  have hfits : ∀ op ∈ addHashes, HostFits op := by
    intro op hop
    rcases List.mem_pair.mp hop with rfl | rfl
    · show (hostOfLength 1).strlen ≤ 45
      decide
    · show (hostOfLength 2).strlen ≤ 45
      decide
  obtain ⟨bytes, table', htransfer, hiff⟩ :=
    transfer_answers_alike_iff addHashes twoHashes hreached hfits (by decide)
  exact ⟨bytes, table', htransfer, hiff.mpr (by decide)⟩

/-- Two peers that were added with one hash: the lookup by that hash answers the
    newer one, and on the transferred table the older one. -/
theorem transfer_swaps_equal_hashes :
    Reached [addHost 1, addHost 2] twoHosts ∧
      (∀ op ∈ [addHost 1, addHost 2], HostFits op) ∧
      8 + 70 * twoHosts.size < 2 ^ 64 ∧
      ∃ bytes table', TransfersTo twoHosts bytes table' ∧ ¬ AnswersAlike twoHosts table' := by
  refine ⟨twoHosts_reached, ?_, by decide, _, _,
    transfersTo_reversed twoHosts_reached.counted (by decide), ?_⟩
  · intro op hop
    rcases List.mem_pair.mp hop with rfl | rfl
    · show (hostOfLength 1).strlen ≤ 45
      decide
    · show (hostOfLength 2).strlen ≤ 45
      decide
  · intro halike
    obtain ⟨info, hfind, hfind'⟩ := halike.findByHash (sampleHash 7)
    have hnewer : lookupTableFindByHash .transparent twoHosts (some (sampleHash 7)) =
        .ok (some (hostNode 2), twoHosts) := rfl
    have holder : lookupTableFindByHash .transparent (reversed twoHosts) (some (sampleHash 7)) =
        .ok (some (hostNode 1), reversed twoHosts) := rfl
    rw [hnewer] at hfind
    rw [holder] at hfind'
    cases hfind
    exact absurd (congrArg Prod.fst (Except.ok.inj hfind')) (by decide)

end Cdht.PeerTableTransfer
