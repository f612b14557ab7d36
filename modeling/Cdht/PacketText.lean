/-
  Cdht/PacketText.lean
  ====================
  **The log line of a packet, and when it fits its buffer.**

  `packet_to_string` prints every accepted datagram into a block of 512 bytes.
  The fixed text, the 40 digits of the sender hash and the decimal fields are
  bounded, but a payload of `n` bytes takes `5 * n - 1` characters and `n` comes
  from the wire.  The length of the line is computed exactly (`length_packetText`),
  and with it the packets whose line fits (`FitsLogLine`).
-/
import Cdht.Convert
import Cdht.PacketCodec

namespace Cdht.PacketText

open Cdht.Memory Cdht.Format Cdht.Convert Cdht.PacketCodec

/-! ### The function of the source -/

/-- `sprintf` with the format `V=[%u] T=[%u] REQ=[%u] SENDER=[%s] PAYLEN=[%u]
    PAYLOAD=[%s]`. -/
def packetFormat (version type : UInt8) (reqId : UInt16) (sender : Bytes) (payloadLen : UInt16)
    (payload : Bytes) : Bytes :=
  ascii "V=[" ++ decimal version.toNat ++ ascii "] T=[" ++ decimal type.toNat ++
    ascii "] REQ=[" ++ decimal reqId.toNat ++ ascii "] SENDER=[" ++ sender ++
    ascii "] PAYLEN=[" ++ decimal payloadLen.toNat ++ ascii "] PAYLOAD=[" ++ payload ++ ascii "]"

def packetToString (packet : Packet) : Exec Block := do
  let output := malloc 512
  let senderHashOutput ← cvtSha1ToString packet.senderNodeHash
  let (payloadOutput, _) ←
    cvtBytesToHex true (packet.payload.getD []) packet.payloadLen.toNat
  let payloadOutput ← match payloadOutput with
    | some block => pure block
    | none => .error .nullPointer
  let sender ← stringAt 0 senderHashOutput
  let payload ← stringAt 0 payloadOutput
  let (output, _) ← sprintf output 0
    (packetFormat packet.version packet.type packet.reqId sender packet.payloadLen payload)
  return output

/-! ### The line -/

def packetText (packet : Packet) : Bytes :=
  packetFormat packet.version packet.type packet.reqId (hexDigits packet.senderNodeHash.val)
    packet.payloadLen (hexText (packet.payload.getD []))

def headerDigits (packet : Packet) : Nat :=
  (decimal packet.version.toNat).length + (decimal packet.type.toNat).length +
    (decimal packet.reqId.toNat).length

theorem length_packetText (packet : Packet) :
    (packetText packet).length = 87 + headerDigits packet +
      (decimal packet.payloadLen.toNat).length + (5 * packet.payloadLen.toNat - 1) := by
  have hsender : (hexDigits packet.senderNodeHash.val).length = 40 := by
    rw [length_hexDigits, packet.senderNodeHash.property]
  have hpayload : (hexText (packet.payload.getD [])).length =
      5 * packet.payloadLen.toNat - 1 := by
    rw [length_hexText, packet.length_payload]
  have hfixed : (ascii "V=[").length + (ascii "] T=[").length + (ascii "] REQ=[").length +
      (ascii "] SENDER=[").length + (ascii "] PAYLEN=[").length + (ascii "] PAYLOAD=[").length +
      (ascii "]").length = 47 := by decide
  simp only [packetText, packetFormat, headerDigits, List.length_append, hsender, hpayload]
  omega

/-- **`packet_to_string` prints the line if it fits, and writes past its buffer
    otherwise.** -/
theorem packetToString_eq (packet : Packet) :
    packetToString packet =
      if (packetText packet).length + 1 ≤ 512 then
        .ok (filled (packetText packet ++ [0]) (511 - (packetText packet).length))
      else .error (.outOfBounds 512) := by
  have hsize : packet.payloadLen.toNat < 2 ^ 16 := packet.payloadLen.toNat_lt
  have hhex : cvtBytesToHex true (packet.payload.getD []) (packet.payload.getD []).length = _ :=
    cvtBytesToHex_eq (by rw [packet.length_payload]; omega)
  rw [packet.length_payload] at hhex
  rw [packetToString, cvtSha1ToString_eq, ok_bind, hhex]
  simp only [ok_bind, pure_eq_ok, stringAt_filled (nul_not_mem_hexDigits _),
    stringAt_filled (nul_not_mem_hexText _)]
  rw [← packetText, sprintf_malloc]
  by_cases hfits : (packetText packet).length + 1 ≤ 512
  · rw [if_pos hfits, if_pos hfits, Nat.add_comm, ← Nat.sub_sub]
    rfl
  · rw [if_neg hfits, if_neg hfits]
    rfl

/-! ### The packets whose line fits -/

/-- At most 82 payload bytes; or 83, when `version`, `type` and `req_id` have at most
    eight decimal digits together; or 84, when each of them has one digit. -/
def FitsLogLine (packet : Packet) : Prop :=
  packet.payloadLen.toNat ≤ 82 ∨
  (packet.payloadLen.toNat = 83 ∧ headerDigits packet ≤ 8) ∨
  (packet.payloadLen.toNat = 84 ∧ packet.version < 10 ∧ packet.type < 10 ∧ packet.reqId < 10)

instance (packet : Packet) : Decidable (FitsLogLine packet) :=
  inferInstanceAs (Decidable (_ ∨ _ ∨ _))

theorem headerDigits_bounds (packet : Packet) :
    3 ≤ headerDigits packet ∧ headerDigits packet ≤ 11 := by
  have hversion : (decimal packet.version.toNat).length ≤ 3 := by
    apply (length_decimal_le_iff (by decide)).mpr
    exact Nat.lt_trans packet.version.toNat_lt (by decide)
  have htype : (decimal packet.type.toNat).length ≤ 3 := by
    apply (length_decimal_le_iff (by decide)).mpr
    exact Nat.lt_trans packet.type.toNat_lt (by decide)
  have hreqId : (decimal packet.reqId.toNat).length ≤ 5 := by
    apply (length_decimal_le_iff (by decide)).mpr
    exact Nat.lt_trans packet.reqId.toNat_lt (by decide)
  have hversion' := length_decimal_pos packet.version.toNat
  have htype' := length_decimal_pos packet.type.toNat
  have hreqId' := length_decimal_pos packet.reqId.toNat
  rw [headerDigits]
  omega

theorem headerDigits_le_three_iff (packet : Packet) :
    headerDigits packet ≤ 3 ↔ packet.version < 10 ∧ packet.type < 10 ∧ packet.reqId < 10 := by
  have hone : ∀ n, (decimal n).length ≤ 1 ↔ n < 10 := fun n => length_decimal_le_iff Nat.one_pos
  have hversion : packet.version < 10 ↔ _ := (hone packet.version.toNat).symm
  have htype : packet.type < 10 ↔ _ := (hone packet.type.toNat).symm
  have hreqId : packet.reqId < 10 ↔ _ := (hone packet.reqId.toNat).symm
  have hversion' := length_decimal_pos packet.version.toNat
  have htype' := length_decimal_pos packet.type.toNat
  have hreqId' := length_decimal_pos packet.reqId.toNat
  rw [hversion, htype, hreqId, headerDigits]
  omega

theorem packetText_fits_iff (packet : Packet) :
    (packetText packet).length + 1 ≤ 512 ↔ FitsLogLine packet := by
  have hdigits := headerDigits_bounds packet
  have hlen := length_decimal_pos packet.payloadLen.toNat
  have hone : (decimal packet.payloadLen.toNat).length ≤ 1 ↔ packet.payloadLen.toNat < 10 :=
    length_decimal_le_iff Nat.one_pos
  have htwo : (decimal packet.payloadLen.toNat).length ≤ 2 ↔ packet.payloadLen.toNat < 100 :=
    length_decimal_le_iff Nat.two_pos
  rw [length_packetText, FitsLogLine, ← headerDigits_le_three_iff]
  omega

theorem payloadLen_of_packetFromBytes {data : Bytes} {packet : Packet}
    (h : packetFromBytes data = .ok (some packet)) :
    packet.payloadLen.toNat = announcedLength data := by
  have hwell : HEADER_SIZE + announcedLength data ≤ data.length := by
    rcases packetFromBytes_cases data with ⟨-, hnone⟩ | ⟨hwell, -⟩
    · rw [hnone] at h
      cases h
    · exact hwell.2
  have hlength := congrArg List.length (packetFromBytes_eq_some h).2
  rw [length_wire, List.length_take, Nat.min_eq_left hwell] at hlength
  exact Nat.add_left_cancel hlength

/-- **The log line of an accepted datagram fits, exactly when its payload is short.**
    For every datagram that the decoder accepts: the line and its NUL take at most
    512 bytes, if and only if `packet_to_string` stays inside its buffer, if and only
    if the datagram announces at most 82 bytes, or a little more with short numbers
    before them. -/
theorem log_line_fits_iff (data : Bytes) (packet : Packet)
    (h : packetFromBytes data = .ok (some packet)) :
    packet.payloadLen.toNat = announcedLength data ∧
    ((packetText packet).length + 1 ≤ 512 ↔ FitsLogLine packet) ∧
    ((∃ block, packetToString packet = .ok block) ↔ FitsLogLine packet) := by
  refine ⟨payloadLen_of_packetFromBytes h, packetText_fits_iff packet, ?_⟩
  rw [packetToString_eq, ← packetText_fits_iff]
  constructor
  · rintro ⟨block, hblock⟩
    by_contra hlong
    rw [if_neg hlong] at hblock
    cases hblock
  · intro hfits
    exact ⟨_, if_pos hfits⟩

theorem log_line_fits_pingBytes :
    ∃ packet, packetFromBytes pingBytes = .ok (some packet) ∧
      (packetText packet).length + 1 ≤ 512 :=
  ⟨_, rfl, (log_line_fits_iff pingBytes _ rfl).2.1.mpr (by decide)⟩

def longPing : Packet :=
  ⟨1, 5, 1, ⟨List.replicate 20 0, rfl⟩, 85, some (List.replicate 85 0), rfl⟩

theorem log_line_of_longPing_overflows :
    ∃ data, encode longPing = .ok data ∧ packetFromBytes data = .ok (some longPing) ∧
      ¬ (packetText longPing).length + 1 ≤ 512 ∧
      packetToString longPing = .error (.outOfBounds 512) := by
  have hlong : ¬ (packetText longPing).length + 1 ≤ 512 := by
    rw [packetText_fits_iff]
    decide
  refine ⟨wire longPing, encode_eq longPing, rfl, hlong, ?_⟩
  rw [packetToString_eq, if_neg hlong]

end Cdht.PacketText
