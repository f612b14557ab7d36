/-
  Cdht/PeerTableImage.lean
  ========================
  **The bytes of a serialized peer table.**

  The size check of `lookup_table_serialize` uses the counter, its writing loop
  follows the chain.  On a reachable table the two agree, so the function writes
  exactly the bytes that `lookup_table_serialized_size` announces
  (`serialize_writes_declared_extent`).

  Reading arbitrary bytes and writing the table again gives a normal form of the
  bytes: the records come out in reverse order, each host field is cut at its first
  NUL and padded, and everything else in a record stays
  (`deserialize_serialize_normalises`).  From the normal form on, reading and writing
  only turns the order around.
-/
import Cdht.PeerTableReachable
import Cdht.PeerTableTransfer

namespace Cdht.PeerTableImage

open Cdht.Memory Cdht.ByteOrder Cdht.Strings Cdht.PeerTable Cdht.PeerTableUniqueness
open Cdht.PeerTableReachable Cdht.PeerTableTransfer

/-! ### Writing -/

theorem lookupTableSerialize_refused {table : LookupTable} (hcounted : Counted table)
    (hsize : 8 + table.size * RECORD_SIZE < 2 ^ 64) (buffer : Bytes) {bufferSize : Nat}
    (hsmall : bufferSize < 8 + table.size * RECORD_SIZE) :
    lookupTableSerialize .transparent table (some buffer) bufferSize =
      .ok ((-1, some buffer), table) := by
  have hrequired : tableBytes table.size = 8 + table.size * RECORD_SIZE := Nat.mod_eq_of_lt hsize
  rw [lookupTableSerialize_transparent hcounted.free, hrequired, if_pos hsmall]

/-- A serialization that gets past the size check does not answer -1. -/
theorem lookupTableSerialize_accepted {table : LookupTable} (hcounted : Counted table)
    (hsize : 8 + table.size * RECORD_SIZE < 2 ^ 64) {buffer : Bytes} {bufferSize : Nat}
    (hlarge : 8 + table.size * RECORD_SIZE ≤ bufferSize) {code : Int} {buffer' : Option Bytes}
    {table' : LookupTable}
    (h : lookupTableSerialize .transparent table (some buffer) bufferSize =
      .ok ((code, buffer'), table')) : code = 0 := by
  have hrequired : tableBytes table.size = 8 + table.size * RECORD_SIZE := Nat.mod_eq_of_lt hsize
  rw [lookupTableSerialize_transparent hcounted.free, hrequired,
    if_neg (Nat.not_lt.mpr hlarge)] at h
  obtain ⟨counted, -, h⟩ := bind_eq_ok h
  obtain ⟨filled, -, h⟩ := bind_eq_ok h
  cases h
  rfl

/-- **Serialization writes exactly its declared extent.**  For every reachable table
    whose size does not wrap, every buffer and every `buffer_size`: the declared size
    is `8 + 70 * size`; the answer is -1 if and only if `buffer_size` is below it, and
    then the buffer stays as it is; otherwise, in a buffer with room for it, the
    answer is 0, the image of the table replaces exactly that many bytes, and the
    bytes behind them stay.  The table stays as it is in either case. -/
theorem serialize_writes_declared_extent (table : LookupTable)
    (hreachable : Reachable .transparent table) (hsize : 8 + 70 * table.size < 2 ^ 64)
    (buffer : Bytes) (bufferSize : Nat) :
    ∃ required, lookupTableSerializedSize .transparent table = .ok (required, table) ∧
      required = 8 + 70 * table.size ∧ (tableImage table.head).length = required ∧
      (∀ info ∈ table.head, (recordBytes info).length = 70) ∧
      ((∃ buffer' table', lookupTableSerialize .transparent table (some buffer) bufferSize =
          .ok ((-1, buffer'), table')) ↔ bufferSize < required) ∧
      (bufferSize < required →
        lookupTableSerialize .transparent table (some buffer) bufferSize =
          .ok ((-1, some buffer), table)) ∧
      (required ≤ bufferSize → required ≤ buffer.length →
        lookupTableSerialize .transparent table (some buffer) bufferSize =
          .ok ((0, some (tableImage table.head ++ buffer.drop required)), table)) := by
  have hcounted := hreachable.counted
  have hbytes : 8 + table.size * RECORD_SIZE < 2 ^ 64 := by
    rwa [Nat.mul_comm] at hsize
  refine ⟨8 + table.size * RECORD_SIZE, ?_, ?_, ?_, ?_, ?_, ?_, ?_⟩
  · rw [lookupTableSerializedSize_eq _ hcounted.free, tableBytes, Nat.mod_eq_of_lt hbytes]
  · rw [Nat.mul_comm]
    rfl
  · rw [length_tableImage, hcounted.size]
  · intro info _
    exact length_recordBytes info
  · constructor
    · rintro ⟨buffer', table', hserialize⟩
      by_contra hlarge
      cases lookupTableSerialize_accepted hcounted hbytes (Nat.le_of_not_lt hlarge) hserialize
    · intro hsmall
      exact ⟨some buffer, table, lookupTableSerialize_refused hcounted hbytes buffer hsmall⟩
  · exact lookupTableSerialize_refused hcounted hbytes buffer
  · intro hlarge hroom
    have hserialize := @lookupTableSerialize_eq table hcounted hbytes
      (buffer.take (8 + table.size * RECORD_SIZE)) (buffer.drop (8 + table.size * RECORD_SIZE))
      bufferSize (List.length_take_of_le hroom) hlarge
    rwa [List.take_append_drop] at hserialize

theorem twoHosts_reachable : Reachable .transparent twoHosts :=
  ⟨⟨[], .free, 0⟩, [.add true (some (hostOfLength 1)) 1 (some (sampleHash 7)),
    .add true (some (hostOfLength 2)) 1 (some (sampleHash 7))], [.code 1, .code 1],
    .created .succeeds rfl, rfl⟩

theorem serialize_twoHosts_extent :
    ∃ required, lookupTableSerializedSize .transparent twoHosts = .ok (required, twoHosts) ∧
      required = 148 ∧
      lookupTableSerialize .transparent twoHosts (some (List.replicate 150 9)) 150 =
        .ok ((0, some (tableImage twoHosts.head ++ (List.replicate 150 9).drop required)),
          twoHosts) := by
  obtain ⟨required, hrequired, rfl, -, -, -, -, hwrites⟩ :=
    serialize_writes_declared_extent twoHosts twoHosts_reachable (by decide) (List.replicate 150 9)
      150
  refine ⟨_, hrequired, rfl, hwrites ?_ ?_⟩
  · decide
  · rw [List.length_replicate]
    decide

/-! ### The fields of a record in a byte string -/

def recordOf (data : Bytes) (i : Nat) : Bytes := slice data (8 + 70 * i) 70

def hostField (data : Bytes) (i : Nat) : Bytes := slice data (8 + 70 * i) 46

def portField (data : Bytes) (i : Nat) : Bytes := slice data (8 + 70 * i + 46) 4

def hashField (data : Bytes) (i : Nat) : Bytes := slice data (8 + 70 * i + 50) 20

/-- A host field as it comes out: its bytes up to the first NUL, at most 45, and
    zeros behind them. -/
def paddedHost (field : Bytes) : Bytes :=
  (cstr field).take 45 ++ List.replicate (46 - ((cstr field).take 45).length) 0

theorem storedHost_eq_paddedHost (field : Bytes) : storedHost field = paddedHost field := by
  have hpad : 46 - ((cstr field).take 45).length = 45 - (cstr field).length + 1 := by
    rw [List.length_take]
    omega
  have hlimit : MAX_HOST_LEN - 1 = 45 := rfl
  rw [storedHost, paddedHost, strncpy, hlimit, hpad, List.append_assoc, List.replicate_succ']

theorem portBytes_portOfBytes {bytes : Bytes} (h : bytes.length = 4) :
    portBytes (portOfBytes bytes) = bytes := by
  have hlt : leValue bytes < 2 ^ 32 := by
    have hlt := leValue_lt bytes
    rwa [h] at hlt
  have hvalue : (portOfBytes bytes).toUInt32.toNat = leValue bytes := by
    show (UInt32.ofNat (leValue bytes)).toNat = leValue bytes
    exact UInt32.toNat_ofNat_of_lt' hlt
  rw [portBytes, hvalue, ← h, leBytes_leValue]

theorem recordBytes_recordAt {data : Bytes} {i : Nat} (h : 8 + 70 * i + RECORD_SIZE ≤ data.length) :
    recordBytes (recordAt data (8 + 70 * i) h) =
      paddedHost (hostField data i) ++ portField data i ++ hashField data i := by
  have hsize : RECORD_SIZE = 70 := rfl
  have hport : (slice data (8 + 70 * i + MAX_HOST_LEN) 4).length = 4 := by
    apply length_slice
    have hhost : MAX_HOST_LEN = 46 := rfl
    omega
  show storedHost (hostField data i) ++
      portBytes (portOfBytes (slice data (8 + 70 * i + MAX_HOST_LEN) 4)) ++ hashField data i = _
  rw [portBytes_portOfBytes hport, storedHost_eq_paddedHost]
  rfl

/-- The record `i` of the byte string is the node `i` of the list of its records. -/
theorem records_getElem? {data : Bytes} {count offset : Nat}
    (hfits : offset + count * RECORD_SIZE ≤ data.length) {i : Nat} (hi : i < count)
    (h : offset + RECORD_SIZE * i + RECORD_SIZE ≤ data.length) :
    (records data count offset)[i]? = some (recordAt data (offset + RECORD_SIZE * i) h) := by
  induction count generalizing offset i with
  | zero => exact absurd hi (Nat.not_lt_zero i)
  | succ count ih =>
    rw [Nat.succ_mul] at hfits
    have hhere : offset + RECORD_SIZE ≤ data.length := by omega
    rw [records, dif_pos hhere]
    cases i with
    | zero => rfl
    | succ i =>
      rw [List.getElem?_cons_succ]
      have hnext : offset + RECORD_SIZE * (i + 1) = offset + RECORD_SIZE + RECORD_SIZE * i := by
        rw [Nat.mul_succ]
        omega
      simp only [hnext] at h ⊢
      exact ih (by omega) (Nat.lt_of_succ_lt_succ hi) h

theorem recordAt_append {data : Bytes} {offset : Nat} (h : offset + RECORD_SIZE ≤ data.length)
    (after : Bytes) (h' : offset + RECORD_SIZE ≤ (data ++ after).length) :
    recordAt (data ++ after) offset h' = recordAt data offset h := by
  have hsize : RECORD_SIZE = MAX_HOST_LEN + 4 + HASH_SIZE := rfl
  simp only [recordAt, NodeInfo.mk.injEq, Subtype.mk.injEq]
  refine ⟨?_, ?_, ?_⟩
  · rw [slice_append_of_le (by omega)]
  · rw [slice_append_of_le (by omega)]
  · rw [slice_append_of_le (by omega)]

theorem records_append {data : Bytes} {count offset : Nat}
    (hfits : offset + count * RECORD_SIZE ≤ data.length) (after : Bytes) :
    records (data ++ after) count offset = records data count offset := by
  induction count generalizing offset with
  | zero => rfl
  | succ count ih =>
    rw [Nat.succ_mul] at hfits
    have hhere : offset + RECORD_SIZE ≤ data.length := by omega
    have hhere' : offset + RECORD_SIZE ≤ (data ++ after).length := by
      rw [List.length_append]
      omega
    rw [records, records, dif_pos hhere, dif_pos hhere', recordAt_append hhere, ih (by omega)]

/-! ### The normal form of a byte string -/

/-- Deserializing `data` gives a table, and serializing that table gives `bytes`. -/
def NormalisesTo (data bytes : Bytes) : Prop :=
  ∃ table, lookupTableDeserialize .transparent .succeeds (some data) = .ok (some table) ∧
    SerializesTo table bytes

theorem SerializesTo.unique {table : LookupTable} {bytes bytes' : Bytes}
    (h : SerializesTo table bytes) (h' : SerializesTo table bytes') : bytes' = bytes := by
  have hlength : bytes'.length = bytes.length :=
    congrArg Prod.fst (Except.ok.inj (h'.1.symm.trans h.1))
  have hwrites := (h'.2 bytes hlength.symm).symm.trans (h.2 bytes rfl)
  cases hwrites
  rfl

/-- Record `i` of an image is the record of node `i`. -/
theorem recordOf_tableImage {nodes : List NodeInfo} {i : Nat} {info : NodeInfo}
    (h : nodes[i]? = some info) : recordOf (tableImage nodes) i = recordBytes info := by
  obtain ⟨hi, rfl⟩ := List.getElem?_eq_some_iff.mp h
  have hsplit : tableImage nodes =
      (leBytes 8 nodes.length ++ (nodes.take i).flatMap recordBytes) ++ recordBytes nodes[i] ++
        (nodes.drop (i + 1)).flatMap recordBytes := by
    have hnodes : nodes.flatMap recordBytes = (nodes.take i).flatMap recordBytes ++
        (recordBytes nodes[i] ++ (nodes.drop (i + 1)).flatMap recordBytes) := by
      conv_lhs => rw [← List.take_append_drop i nodes, List.drop_eq_getElem_cons hi]
      rw [List.flatMap_append, List.flatMap_cons]
    rw [tableImage, hnodes]
    simp only [List.append_assoc]
  rw [hsplit, recordOf]
  apply slice_middle
  · rw [List.length_append, length_leBytes, length_flatMap_recordBytes, List.length_take_of_le hi.le,
      Nat.mul_comm]
    rfl
  · rw [length_recordBytes]
    rfl

theorem length_paddedHost (field : Bytes) : (paddedHost field).length = 46 := by
  rw [← storedHost_eq_paddedHost, length_storedHost]
  rfl

theorem slices_of_record {host port hash : Bytes} (hhost : host.length = 46)
    (hport : port.length = 4) (hhash : hash.length = 20) :
    slice (host ++ port ++ hash) 0 46 = host ∧ slice (host ++ port ++ hash) 46 4 = port ∧
      slice (host ++ port ++ hash) 50 20 = hash := by
  refine ⟨?_, slice_middle hhost.symm hport.symm, ?_⟩
  · have hmiddle := @slice_middle _ [] host (port ++ hash) 0 46 rfl hhost.symm
    rwa [List.nil_append, ← List.append_assoc] at hmiddle
  · have hbefore : 50 = (host ++ port).length := by
      rw [List.length_append, hhost, hport]
    have hmiddle := @slice_middle _ (host ++ port) hash [] 50 20 hbefore hhash.symm
    rwa [List.append_nil] at hmiddle

theorem fields_of_recordOf (data : Bytes) (i : Nat) :
    hostField data i = slice (recordOf data i) 0 46 ∧
      portField data i = slice (recordOf data i) 46 4 ∧
      hashField data i = slice (recordOf data i) 50 20 := by
  refine ⟨?_, ?_, ?_⟩
  · rw [recordOf, slice_slice (by decide)]
    rfl
  · rw [recordOf, slice_slice (by decide)]
    rfl
  · rw [recordOf, slice_slice (by decide)]
    rfl

section NormalForm

variable {data : Bytes} (hfits : 8 + 70 * nodeCount data ≤ data.length)

include hfits

theorem fields_of_normalForm {i : Nat} (hi : i < nodeCount data) :
    hostField (tableImage (tableOf data).head) i =
        paddedHost (hostField data (nodeCount data - 1 - i)) ∧
      portField (tableImage (tableOf data).head) i =
        portField data (nodeCount data - 1 - i) ∧
      hashField (tableImage (tableOf data).head) i =
        hashField data (nodeCount data - 1 - i) := by
  have hsize : RECORD_SIZE = 70 := rfl
  have hall : 8 + nodeCount data * RECORD_SIZE ≤ data.length := by
    rwa [Nat.mul_comm]
  have hlast : nodeCount data - 1 - i < nodeCount data := by omega
  have hinside : 8 + 70 * (nodeCount data - 1 - i) + RECORD_SIZE ≤ data.length := by omega
  have hnode : (tableOf data).head[i]? =
      some (recordAt data (8 + 70 * (nodeCount data - 1 - i)) hinside) := by
    show (records data (nodeCount data) 8).reverse[i]? = _
    rw [List.getElem?_reverse (by rw [length_records hall]; exact hi), length_records hall]
    exact records_getElem? hall hlast hinside
  have hrecord := recordOf_tableImage hnode
  rw [recordBytes_recordAt] at hrecord
  have hport : (portField data (nodeCount data - 1 - i)).length = 4 := length_slice (by omega)
  have hhash : (hashField data (nodeCount data - 1 - i)).length = 20 := length_slice (by omega)
  obtain ⟨hhostOf, hportOf, hhashOf⟩ :=
    fields_of_recordOf (tableImage (tableOf data).head) i
  rw [hhostOf, hportOf, hhashOf, hrecord]
  exact slices_of_record (length_paddedHost _) hport hhash

theorem tableOf_same_front {rest : Bytes} :
    tableOf (data.take (8 + 70 * nodeCount data) ++ rest) = tableOf data := by
  have hfront : (data.take (8 + 70 * nodeCount data)).length = 8 + 70 * nodeCount data :=
    List.length_take_of_le hfits
  have hrecords : 8 + nodeCount data * RECORD_SIZE ≤
      (data.take (8 + 70 * nodeCount data)).length := by
    rw [hfront, Nat.mul_comm]
    exact Nat.le_refl _
  have hcount : ∀ after, nodeCount (data.take (8 + 70 * nodeCount data) ++ after) =
      nodeCount data := by
    intro after
    rw [nodeCount, List.take_append_of_le_length (by omega), List.take_take,
      Nat.min_eq_left (by omega), nodeCount]
  have hsame : records data (nodeCount data) 8 =
      records (data.take (8 + 70 * nodeCount data)) (nodeCount data) 8 := by
    conv_lhs => rw [← List.take_append_drop (8 + 70 * nodeCount data) data, hcount]
    exact records_append hrecords _
  rw [tableOf, hcount, records_append hrecords, ← hsame, tableOf]

theorem normalisesTo_tableImage (hlength : data.length < 2 ^ 64) :
    NormalisesTo data (tableImage (tableOf data).head) := by
  have hsize : 8 + 70 * (tableOf data).size < 2 ^ 64 := Nat.lt_of_le_of_lt hfits hlength
  exact ⟨tableOf data, deserialize_of_fits .transparent hfits,
    (transfersTo_reversed (counted_tableOf hfits) hsize).1⟩

/-- Other bytes behind the records lead to the same image. -/
theorem normalisesTo_same_front {rest : Bytes}
    (hrest : (data.take (8 + 70 * nodeCount data) ++ rest).length < 2 ^ 64) :
    NormalisesTo (data.take (8 + 70 * nodeCount data) ++ rest)
      (tableImage (tableOf data).head) := by
  have hsame : tableOf (data.take (8 + 70 * nodeCount data) ++ rest) = tableOf data :=
    tableOf_same_front hfits
  have hcount : nodeCount (data.take (8 + 70 * nodeCount data) ++ rest) = nodeCount data :=
    congrArg LookupTable.size hsame
  have hfits' : 8 + 70 * nodeCount (data.take (8 + 70 * nodeCount data) ++ rest) ≤
      (data.take (8 + 70 * nodeCount data) ++ rest).length := by
    rw [hcount, List.length_append, List.length_take_of_le hfits]
    omega
  have hnormal := normalisesTo_tableImage hfits' hrest
  rwa [hsame] at hnormal

end NormalForm

/-- **Reading arbitrary bytes and writing the table again normalises them.**  For every
    byte string of a `size_t` length that holds the records it announces: the bytes
    written are determined, as long as the records read, and begin with the same
    count; the records come in reverse order, with ports and hashes as they were and
    each host field cut at its first NUL, to at most 45 bytes, and padded with zeros;
    what stands behind the records has no influence; and two more rounds give the same
    bytes again. -/
theorem deserialize_serialize_normalises (data : Bytes)
    (hfits : 8 + 70 * nodeCount data ≤ data.length) (hlength : data.length < 2 ^ 64) :
    ∃ bytes, NormalisesTo data bytes ∧ (∀ bytes', NormalisesTo data bytes' → bytes' = bytes) ∧
      bytes.length = 8 + 70 * nodeCount data ∧ bytes.take 8 = data.take 8 ∧
      (∀ i < nodeCount data,
        hostField bytes i = paddedHost (hostField data (nodeCount data - 1 - i)) ∧
        portField bytes i = portField data (nodeCount data - 1 - i) ∧
        hashField bytes i = hashField data (nodeCount data - 1 - i)) ∧
      (∀ rest, (data.take (8 + 70 * nodeCount data) ++ rest).length < 2 ^ 64 →
        NormalisesTo (data.take (8 + 70 * nodeCount data) ++ rest) bytes) ∧
      ∃ again, NormalisesTo bytes again ∧ NormalisesTo again bytes := by
  have hcounted : Counted (tableOf data) := counted_tableOf hfits
  have hsize : 8 + 70 * (tableOf data).size < 2 ^ 64 := Nat.lt_of_le_of_lt hfits hlength
  have hcount : (tableOf data).head.length = nodeCount data := hcounted.size.symm
  refine ⟨tableImage (tableOf data).head, normalisesTo_tableImage hfits hlength, ?_, ?_, ?_, ?_, ?_,
    ?_⟩
  · rintro bytes' ⟨table, hread, hserializes⟩
    obtain ⟨rfl, -⟩ := eq_tableOf_of_deserialize hread
    exact SerializesTo.unique (transfersTo_reversed hcounted hsize).1 hserializes
  · rw [length_tableImage, hcount, Nat.mul_comm]
    rfl
  · have hfront : (data.take 8).length = 8 := List.length_take_of_le (by omega)
    rw [tableImage, List.take_left' (length_leBytes 8 _), hcount, nodeCount]
    conv_rhs => rw [← leBytes_leValue (data.take 8), hfront]
  · intro i hi
    exact fields_of_normalForm hfits hi
  · intro rest hrest
    exact normalisesTo_same_front hfits hrest
  · -- from here on, reading and writing only turns the list of nodes around
    have hfirst := transfersTo_reversed hcounted hsize
    have hsecond := transfersTo_reversed (counted_reversed hcounted) hsize
    have htwice : reversed (reversed (tableOf data)) = tableOf data := by
      rw [reversed, reversed, List.reverse_reverse]
    rw [htwice] at hsecond
    exact ⟨_, ⟨_, hfirst.2, hsecond.1⟩, _, hsecond.2, hfirst.1⟩

/-- One record whose host field has no NUL, and one byte behind it. -/
def unterminatedHost : Bytes := [1, 0, 0, 0, 0, 0, 0, 0] ++ List.replicate 70 97 ++ [5]

theorem normalises_unterminatedHost :
    ∃ bytes, NormalisesTo unterminatedHost bytes ∧ bytes.length = 78 ∧
      hostField bytes 0 = List.replicate 45 97 ++ [0] := by
  obtain ⟨bytes, hnormal, -, hlength, -, hfields, -, -⟩ :=
    deserialize_serialize_normalises unterminatedHost (by decide +kernel) (by decide +kernel)
  have hcount : nodeCount unterminatedHost = 1 := by decide +kernel
  have hhost := (hfields 0 (by rw [hcount]; exact Nat.zero_lt_one)).1
  rw [hcount] at hlength hhost
  refine ⟨bytes, hnormal, hlength, hhost.trans ?_⟩
  decide +kernel

end Cdht.PeerTableImage
