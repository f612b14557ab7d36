/-
  Cdht/Packet.lean
  ================
  **The packet, its decoder and its encoder.**

  A datagram is a header of 26 bytes (version, type, request id, sender hash,
  payload length; the two 16-bit fields in network order) and the payload.  The
  decoder reads a byte string of any length, the encoder fills a block that it
  allocates itself.  Both are written as the C code is, one read or store for
  each access, so that an access outside the byte string or the block would be
  a fault.  Their agreement is the subject of `PacketCodec.lean`.

  Allocations are taken to succeed: the source does not check them.
-/
import Cdht.ByteOrder

namespace Cdht.PacketCodec

open Cdht.Memory Cdht.ByteOrder

/-- `packet_t`.  `payload` is `none` for a NULL pointer; whatever it points to has
    the `payload_len` bytes that the encoder copies. -/
structure Packet where
  version : UInt8
  type : UInt8
  reqId : UInt16
  senderNodeHash : CharArray 20
  payloadLen : UInt16
  payload : Option Bytes
  length_payload : (payload.getD []).length = payloadLen.toNat
deriving DecidableEq

theorem length_noPayload : ((none : Option Bytes).getD []).length = (0 : UInt16).toNat := rfl

theorem length_emptyPayload : ((some ([] : Bytes)).getD []).length = (0 : UInt16).toNat := rfl

theorem length_somePayload (payloadLen : UInt16) (payload : CharArray payloadLen.toNat) :
    ((some payload.val).getD []).length = payloadLen.toNat := payload.property

/-- The twenty zero bytes of an empty hash. -/
theorem length_zeros : (List.replicate 20 (0 : UInt8)).length = 20 := List.length_replicate

def HEADER_SIZE : Nat := 26

/-- The end of `packet_from_bytes`, when the fields of the header are read: the check
    that the buffer contains the full payload, and the copy of the payload. -/
def packetWithPayload (bytes : Bytes) (version type : UInt8) (reqId : UInt16)
    (senderNodeHash : CharArray 20) (payloadLen : UInt16) : Exec (Option Packet) := do
  if bytes.length < HEADER_SIZE + payloadLen.toNat then
    return none
  if hempty : payloadLen = 0 then
    return some ⟨version, type, reqId, senderNodeHash, payloadLen, none, by rw [hempty]; rfl⟩
  else
    let payload ← readArray bytes HEADER_SIZE payloadLen.toNat
    return some ⟨version, type, reqId, senderNodeHash, payloadLen, some payload.val,
      length_somePayload payloadLen payload⟩

def packetFromBytes (bytes : Bytes) : Exec (Option Packet) := do
  if bytes.length < HEADER_SIZE then
    return none
  let version ← readByte bytes 0
  let type ← readByte bytes 1
  let reqRaw ← readArray bytes 2 2
  let senderNodeHash ← readArray bytes 4 20
  let payloadRaw ← readArray bytes 24 2
  packetWithPayload bytes version type (ntohs (loadU16 reqRaw)) senderNodeHash
    (ntohs (loadU16 payloadRaw))

def packetToBytes (packet : Packet) : Exec (Block × Nat) := do
  let totalLen := HEADER_SIZE + packet.payloadLen.toNat
  let buf := malloc totalLen
  let buf ← store buf 0 [packet.version]
  let buf ← store buf 1 [packet.type]
  let buf ← store buf 2 (storeU16 (htons packet.reqId))
  let buf ← store buf 4 packet.senderNodeHash.val
  let buf ← store buf 24 (storeU16 (htons packet.payloadLen))
  if 0 < packet.payloadLen then
    let payload ← readAt (packet.payload.getD []) 0 packet.payloadLen.toNat
    let buf ← store buf HEADER_SIZE payload
    return (buf, totalLen)
  else
    return (buf, totalLen)

/-- The bytes a caller of `packet_to_bytes` finds: the first `len` bytes of the
    block, where `len` is the returned length. -/
def encode (packet : Packet) : Exec Bytes := do
  let (buf, len) ← packetToBytes packet
  load buf len

end Cdht.PacketCodec
