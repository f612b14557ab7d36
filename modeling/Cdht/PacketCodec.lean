/-
  Cdht/PacketCodec.lean
  =====================
  **Decoder and encoder agree on one format.**

  `Packet.wire` is the format.  The encoder writes it, for every packet
  (`packetToBytes_eq`), and the decoder accepts exactly the byte strings that
  begin with it (`packetFromBytes_cases`).  As the format determines the packet
  up to the spelling of an empty payload (`wire_injective`), each undoes the
  other.
-/
import Cdht.Packet

namespace Cdht.PacketCodec

open Cdht.Memory Cdht.ByteOrder

/-! ### The format -/

def header (packet : Packet) : Bytes :=
  [packet.version] ++ [packet.type] ++ storeU16 (htons packet.reqId) ++
    packet.senderNodeHash.val ++ storeU16 (htons packet.payloadLen)

def wire (packet : Packet) : Bytes := header packet ++ packet.payload.getD []

/-- The payload length that a byte string announces: its bytes 24 and 25, in
    network order. -/
def announcedLength (bytes : Bytes) : Nat := beValue (slice bytes 24 2)

def WellFormed (bytes : Bytes) : Prop :=
  HEADER_SIZE ≤ bytes.length ∧ HEADER_SIZE + announcedLength bytes ≤ bytes.length

instance (bytes : Bytes) : Decidable (WellFormed bytes) := inferInstanceAs (Decidable (_ ∧ _))

/-- The packet with NULL for an empty payload, as the decoder has it. -/
def nullIfEmpty (packet : Packet) : Packet :=
  if hempty : packet.payloadLen = 0 then
    { packet with payload := none, length_payload := by rw [hempty]; rfl }
  else packet

@[simp] theorem length_header (packet : Packet) : (header packet).length = HEADER_SIZE := by
  simp only [header, List.length_append, List.length_singleton, length_storeU16,
    packet.senderNodeHash.property]
  rfl

@[simp] theorem length_wire (packet : Packet) :
    (wire packet).length = HEADER_SIZE + packet.payloadLen.toNat := by
  rw [wire, List.length_append, length_header, packet.length_payload]

/-! ### Encoding -/

/-- **The encoder fills its block with the wire bytes**, and nothing is left over. -/
theorem packetToBytes_eq (packet : Packet) :
    packetToBytes packet = .ok (filled (wire packet) 0, (wire packet).length) := by
  have hhash : packet.senderNodeHash.val.length = 20 := packet.senderNodeHash.property
  have hpayload := packet.length_payload
  rw [length_wire, packetToBytes, malloc_eq_filled, HEADER_SIZE]
  generalize hvalue : packet.payloadLen.toNat = len at hpayload ⊢
  -- the block while it is filled, with the room that is left behind each field
  have hversion : store (filled [] (26 + len)) 0 [packet.version] =
      .ok (filled ([] ++ [packet.version]) (25 + len)) :=
    store_filled rfl (by simp; omega)
  have htype : store (filled ([] ++ [packet.version]) (25 + len)) 1 [packet.type] =
      .ok (filled ([] ++ [packet.version] ++ [packet.type]) (24 + len)) :=
    store_filled rfl (by simp; omega)
  have hreqId : store (filled ([] ++ [packet.version] ++ [packet.type]) (24 + len)) 2
      (storeU16 (htons packet.reqId)) =
      .ok (filled ([packet.version] ++ [packet.type] ++ storeU16 (htons packet.reqId))
        (22 + len)) :=
    store_filled rfl (by simp; omega)
  have hsender : store (filled ([packet.version] ++ [packet.type] ++
      storeU16 (htons packet.reqId)) (22 + len)) 4 packet.senderNodeHash.val =
      .ok (filled ([packet.version] ++ [packet.type] ++ storeU16 (htons packet.reqId) ++
        packet.senderNodeHash.val) (2 + len)) :=
    store_filled (by simp) (by omega)
  have hlen : store (filled ([packet.version] ++ [packet.type] ++ storeU16 (htons packet.reqId) ++
      packet.senderNodeHash.val) (2 + len)) 24 (storeU16 (htons packet.payloadLen)) =
      .ok (filled (header packet) len) :=
    store_filled (by simp [hhash]) (by simp)
  rw [hversion, ok_bind, htype, ok_bind, hreqId, ok_bind, hsender, ok_bind, hlen, ok_bind]
  by_cases hempty : 0 < packet.payloadLen
  · have hread : readAt (packet.payload.getD []) 0 len = .ok (packet.payload.getD []) := by
      rw [readAt_eq_ok (by omega), slice, List.drop_zero, ← hpayload, List.take_length]
    have hstore : store (filled (header packet) len) 26 (packet.payload.getD []) =
        .ok (filled (wire packet) 0) :=
      store_filled (by simp [HEADER_SIZE]) (by omega)
    rw [if_pos hempty, hread, ok_bind, hstore]
    rfl
  · have hzero : packet.payloadLen.toNat = 0 := by
      rw [UInt16.lt_iff_toNat_lt] at hempty
      exact Nat.le_zero.mp (Nat.le_of_not_lt hempty)
    have hnil : packet.payload.getD [] = [] := by
      apply List.eq_nil_of_length_eq_zero
      omega
    rw [if_neg hempty, wire, hnil, List.append_nil, ← hvalue, hzero]
    rfl

theorem encode_eq (packet : Packet) : encode packet = .ok (wire packet) := by
  rw [encode, packetToBytes_eq, ok_bind]
  show load (filled (wire packet) 0) (wire packet).length = _
  rw [load_filled (Nat.le_refl _), List.take_length]

/-! ### Decoding -/

/-- The format determines the packet, up to the spelling of an empty payload. -/
theorem wire_injective {left right : Packet} (h : wire left = wire right) :
    nullIfEmpty left = nullIfEmpty right := by
  have hheader : header left = header right ∧ left.payload.getD [] = right.payload.getD [] :=
    List.append_inj h (by rw [length_header, length_header])
  obtain ⟨hfront, hlen⟩ := List.append_inj' hheader.1 (by simp)
  obtain ⟨hfront, hsender⟩ := List.append_inj' hfront (by simp [left.senderNodeHash.property,
    right.senderNodeHash.property])
  obtain ⟨hfront, hreqId⟩ := List.append_inj' hfront (by simp)
  have hreqId : left.reqId = right.reqId := by
    rw [← ofNat_beValue_storeU16_htons left.reqId, hreqId, ofNat_beValue_storeU16_htons]
  have hlen : left.payloadLen = right.payloadLen := by
    rw [← ofNat_beValue_storeU16_htons left.payloadLen, hlen, ofNat_beValue_storeU16_htons]
  obtain ⟨version, type, reqId, sender, len, payload, hleft⟩ := left
  obtain ⟨version', type', reqId', sender', len', payload', hright⟩ := right
  obtain ⟨rfl, rfl⟩ : version = version' ∧ type = type' := by simpa using hfront
  obtain rfl : sender = sender' := Subtype.ext hsender
  obtain rfl : reqId = reqId' := hreqId
  obtain rfl : len = len' := hlen
  have hpayload : payload.getD [] = payload'.getD [] := hheader.2
  unfold nullIfEmpty
  by_cases hempty : len = 0
  · rw [dif_pos hempty, dif_pos hempty]
  · rw [dif_neg hempty, dif_neg hempty]
    have hsome : ∀ {payload : Option Bytes}, (payload.getD []).length = len.toNat →
        payload = some (payload.getD []) := by
      rintro (_ | bytes) hlength
      · exact absurd (UInt16.toNat_inj.mp hlength.symm) hempty
      · rfl
    congr 1
    rw [hsome hleft, hsome hright, hpayload]

theorem packetWithPayload_eq {bytes : Bytes} (version type : UInt8) (reqId : UInt16)
    (sender : CharArray 20) (len : UInt16) (h : HEADER_SIZE + len.toNat ≤ bytes.length) :
    ∃ packet, packetWithPayload bytes version type reqId sender len = .ok (some packet) ∧
      nullIfEmpty packet = packet ∧
      wire packet = [version] ++ [type] ++ storeU16 (htons reqId) ++ sender.val ++
        storeU16 (htons len) ++ slice bytes HEADER_SIZE len.toNat := by
  rw [packetWithPayload, if_neg (Nat.not_lt.mpr h)]
  by_cases hempty : len = 0
  · rw [dif_pos hempty]
    refine ⟨_, rfl, dif_pos hempty, ?_⟩
    have hnil : slice bytes HEADER_SIZE len.toNat = [] := by
      rw [hempty]
      exact List.take_zero
    rw [hnil]
    rfl
  · rw [dif_neg hempty, readArray_eq_ok h]
    exact ⟨_, rfl, dif_neg hempty, rfl⟩

theorem storeU16_htons_ntohs_loadU16 (bytes : CharArray 2) :
    storeU16 (htons (ntohs (loadU16 bytes))) = bytes.val := by
  rw [ntohs_loadU16, storeU16_htons_ofNat_beValue bytes.property]

theorem read_pieces {bytes : Bytes} (h0 : 0 < bytes.length) (h1 : 1 < bytes.length) (n : Nat) :
    [bytes[0]] ++ [bytes[1]] ++ slice bytes 2 2 ++ slice bytes 4 20 ++ slice bytes 24 2 ++
      slice bytes HEADER_SIZE n = bytes.take (HEADER_SIZE + n) := by
  rw [← slice_one h0, ← slice_one h1, slice_append_slice bytes 0 1 1,
    slice_append_slice bytes 0 2 2, slice_append_slice bytes 0 4 20,
    slice_append_slice bytes 0 24 2]
  exact slice_append_slice bytes 0 26 n

/-- **What the decoder does with any byte string.**  It never reads outside it,
    rejects it unless it is well-formed, and otherwise answers the packet whose wire
    bytes the string begins with. -/
theorem packetFromBytes_cases (bytes : Bytes) :
    (¬ WellFormed bytes ∧ packetFromBytes bytes = .ok none) ∨
    (WellFormed bytes ∧ ∃ packet, packetFromBytes bytes = .ok (some packet) ∧
      nullIfEmpty packet = packet ∧
      wire packet = bytes.take (HEADER_SIZE + announcedLength bytes)) := by
  by_cases hshort : bytes.length < HEADER_SIZE
  · left
    refine ⟨fun h => absurd h.1 (Nat.not_le.mpr hshort), ?_⟩
    rw [packetFromBytes, if_pos hshort]
    rfl
  have hheader : 26 ≤ bytes.length := Nat.le_of_not_lt hshort
  rw [packetFromBytes, if_neg hshort, readByte_eq_ok (by omega), ok_bind,
    readByte_eq_ok (by omega), ok_bind, readArray_eq_ok (by omega), ok_bind,
    readArray_eq_ok (by omega), ok_bind, readArray_eq_ok (by omega), ok_bind]
  have hlen : (ntohs (loadU16 ⟨slice bytes 24 2, length_slice hheader⟩)).toNat =
      announcedLength bytes := by
    rw [ntohs_loadU16, toNat_ofNat_beValue (length_slice hheader)]
    rfl
  by_cases htruncated : bytes.length < HEADER_SIZE + announcedLength bytes
  · left
    refine ⟨fun h => absurd h.2 (Nat.not_le.mpr htruncated), ?_⟩
    rw [packetWithPayload, if_pos (hlen ▸ htruncated)]
    rfl
  · right
    have hfull := Nat.le_of_not_lt htruncated
    obtain ⟨packet, hpacket, hnull, hwire⟩ := packetWithPayload_eq _ _ _ _ _ (hlen ▸ hfull)
    refine ⟨⟨hheader, hfull⟩, packet, hpacket, hnull, ?_⟩
    rw [hwire, storeU16_htons_ntohs_loadU16, storeU16_htons_ntohs_loadU16, hlen]
    exact read_pieces _ _ _

theorem packetFromBytes_eq_some {bytes : Bytes} {packet : Packet}
    (h : packetFromBytes bytes = .ok (some packet)) :
    nullIfEmpty packet = packet ∧
      wire packet = bytes.take (HEADER_SIZE + announcedLength bytes) := by
  rcases packetFromBytes_cases bytes with ⟨-, hnone⟩ | ⟨-, decoded, hsome, hspec⟩
  · rw [hnone] at h
    cases h
  · rw [hsome] at h
    cases h
    exact hspec

/-! ### The two directions together -/

theorem announcedLength_wire_append (packet : Packet) (rest : Bytes) :
    announcedLength (wire packet ++ rest) = packet.payloadLen.toNat := by
  have hpieces : wire packet ++ rest =
      ([packet.version] ++ [packet.type] ++ storeU16 (htons packet.reqId) ++
        packet.senderNodeHash.val) ++ storeU16 (htons packet.payloadLen) ++
        (packet.payload.getD [] ++ rest) := by
    rw [wire, header, List.append_assoc]
  have hfield : slice (wire packet ++ rest) 24 2 = storeU16 (htons packet.payloadLen) := by
    rw [hpieces]
    apply slice_middle
    · simp [packet.senderNodeHash.property]
    · rw [length_storeU16]
  rw [announcedLength, hfield, ← toNat_ofNat_beValue (length_storeU16 _),
    ofNat_beValue_storeU16_htons]

theorem packetFromBytes_wire_append (packet : Packet) (rest : Bytes) :
    packetFromBytes (wire packet ++ rest) = .ok (some (nullIfEmpty packet)) := by
  have hannounced := announcedLength_wire_append packet rest
  have hwell : WellFormed (wire packet ++ rest) := by
    constructor
    · rw [List.length_append, length_wire, Nat.add_assoc]
      exact Nat.le_add_right _ _
    · rw [hannounced, List.length_append, length_wire]
      exact Nat.le_add_right _ _
  rcases packetFromBytes_cases (wire packet ++ rest) with
    ⟨hbad, -⟩ | ⟨-, decoded, hdecoded, hnull, hwire⟩
  · exact absurd hwell hbad
  · rw [hannounced, ← length_wire, List.take_left] at hwire
    rw [hdecoded, ← hnull, wire_injective hwire]

theorem packetFromBytes_wire (packet : Packet) :
    packetFromBytes (wire packet) = .ok (some (nullIfEmpty packet)) := by
  rw [← packetFromBytes_wire_append packet [], List.append_nil]

/-- **Decoding undoes encoding, whatever follows.**  The encoding of any packet has
    26 bytes and the payload, and a byte string that begins with it decodes to the
    packet, with NULL for an empty payload. -/
theorem packet_decode_encode (packet : Packet) (rest : Bytes) :
    ∃ encoded, encode packet = .ok encoded ∧
      encoded.length = HEADER_SIZE + packet.payloadLen.toNat ∧
      packetFromBytes (encoded ++ rest) = .ok (some (nullIfEmpty packet)) :=
  ⟨wire packet, encode_eq packet, length_wire packet, packetFromBytes_wire_append packet rest⟩

/-- **The decoder accepts exactly its format.**  For every byte string: it answers a
    packet if and only if the string is well-formed, NULL otherwise, and faults in
    neither case; encoding the packet again gives back the bytes it was read from.
    Two accepted strings decode to equal packets if and only if these are equal. -/
theorem packet_parser_exact :
    (∀ bytes : Bytes,
      ((∃ packet, packetFromBytes bytes = .ok (some packet)) ↔
        HEADER_SIZE ≤ bytes.length ∧ HEADER_SIZE + announcedLength bytes ≤ bytes.length) ∧
      (¬ (HEADER_SIZE ≤ bytes.length ∧ HEADER_SIZE + announcedLength bytes ≤ bytes.length) →
        packetFromBytes bytes = .ok none) ∧
      (∀ fault, packetFromBytes bytes ≠ .error fault) ∧
      (∀ packet, packetFromBytes bytes = .ok (some packet) →
        encode packet = .ok (bytes.take (HEADER_SIZE + announcedLength bytes)))) ∧
    (∀ (left right : Bytes) (packet packet' : Packet),
      packetFromBytes left = .ok (some packet) → packetFromBytes right = .ok (some packet') →
      (packet = packet' ↔ left.take (HEADER_SIZE + announcedLength left) =
        right.take (HEADER_SIZE + announcedLength right))) := by
  constructor
  · intro bytes
    rcases packetFromBytes_cases bytes with ⟨hbad, hnone⟩ | ⟨hwell, decoded, hsome, -, hwire⟩
    · refine ⟨iff_of_false ?_ hbad, fun _ => hnone, ?_, ?_⟩
      · rintro ⟨packet, hpacket⟩
        rw [hnone] at hpacket
        cases hpacket
      · intro fault hfault
        rw [hnone] at hfault
        cases hfault
      · intro packet hpacket
        rw [hnone] at hpacket
        cases hpacket
    · refine ⟨iff_of_true ⟨decoded, hsome⟩ hwell, fun hbad => absurd hwell hbad, ?_, ?_⟩
      · intro fault hfault
        rw [hsome] at hfault
        cases hfault
      · intro packet hpacket
        rw [hsome] at hpacket
        cases hpacket
        rw [encode_eq, hwire]
  · intro left right packet packet' hleft hright
    obtain ⟨hnull, hwire⟩ := packetFromBytes_eq_some hleft
    obtain ⟨hnull', hwire'⟩ := packetFromBytes_eq_some hright
    rw [← hwire, ← hwire']
    constructor
    · rintro rfl
      rfl
    · intro hequal
      rw [← hnull, ← hnull', wire_injective hequal]

def pingBytes : Bytes := [1, 5, 1, 2] ++ List.replicate 20 0 ++ [0, 0]

theorem packet_parser_exact_pingBytes :
    ∃ packet, packetFromBytes pingBytes = .ok (some packet) ∧ packet.reqId = 258 ∧
      encode packet = .ok pingBytes :=
  ⟨_, rfl, rfl, (packet_parser_exact.1 pingBytes).2.2.2 _ rfl⟩

end Cdht.PacketCodec
