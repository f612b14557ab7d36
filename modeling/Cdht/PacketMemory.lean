/-
  Cdht/PacketMemory.lean
  ======================
  **Where packets live** (`src/packet/packet.c`, `src/node/request_handler.c`,
  `src/node/commands/ping.command.c`, `src/node/load_commands.c`).

  The codec and the handler are the subject of earlier files, which take a packet for the
  value that its pointers lead to.  Here are the same functions with their allocations:
  a packet is a structure with a pointer to its payload, every `malloc` puts an object on
  a ledger, every `free` takes one away, and a value is read through its pointers.  What
  the blocks are filled with is computed by the functions of the earlier files.

  Allocations are taken to succeed, as the source takes them, and `global_node` is set.

  `PacketAt pointer packet own` says that the objects `own` are the packet at `pointer`.
  The handler returns what the handler of `RequestHandler.lean` returns, and leaves
  nothing behind but the block of its answer (`nodeRequestHandler_agrees`).  The objects
  include the requests of the server, whose memory is the subject of `ServerMemory.lean`.
-/
import Cdht.Ownership
import Cdht.RequestHandler

namespace Cdht.PacketMemory

open Cdht.Memory Cdht.Format Cdht.LinkedCells Cdht.Ownership Cdht.Convert
open Cdht.PacketCodec (Packet HEADER_SIZE length_somePayload)
open Cdht.PacketText (packetFormat)
open Cdht.RequestHandler (CMD_ERROR CMD_PING)

variable {Addr : Type}

/-! ### Objects -/

/-- `packet_t`. -/
structure PacketCell where
  version : UInt8
  type : UInt8
  reqId : UInt16
  senderNodeHash : CharArray 20
  payloadLen : UInt16
  payload : Option Address

/-- `udp_request_t`. -/
structure RequestCell (Addr : Type) where
  addr : Addr
  dataLength : Nat
  data : Address

inductive Object (Addr : Type) where
  | unset                                -- a structure none of whose fields is set yet
  | chars (block : Block)
  | packet (cell : PacketCell)
  | request (cell : RequestCell Addr)

def loadChars (memory : Ledger (Object Addr)) (pointer : Address) : Exec Block := do
  match ← fetch memory pointer with
  | .chars block => return block
  | _ => .error .uninitialised

def loadPacket (memory : Ledger (Object Addr)) (pointer : Address) : Exec PacketCell := do
  match ← fetch memory pointer with
  | .packet cell => return cell
  | _ => .error .uninitialised

/-- The string at a pointer, as `%s` reads it. -/
def readString (memory : Ledger (Object Addr)) (pointer : Address) : Exec Bytes := do
  let block ← loadChars memory pointer
  stringAt 0 block

theorem length_nullPayload {payloadLen : UInt16} (h : payloadLen = 0) :
    ((none : Option Bytes).getD []).length = payloadLen.toNat := by
  rw [h]
  rfl

/-- The packet at a pointer, with its payload. -/
def readPacket (memory : Ledger (Object Addr)) (pointer : Address) : Exec Packet := do
  let cell ← loadPacket memory pointer
  match cell.payload with
  | none =>
      if hempty : cell.payloadLen = 0 then
        return ⟨cell.version, cell.type, cell.reqId, cell.senderNodeHash, cell.payloadLen, none,
          length_nullPayload hempty⟩
      else .error .nullPointer
  | some payload =>
      let block ← loadChars memory payload
      let bytes ← load block cell.payloadLen.toNat
      let copy ← readArray bytes 0 cell.payloadLen.toNat
      return ⟨cell.version, cell.type, cell.reqId, cell.senderNodeHash, cell.payloadLen,
        some copy.val, length_somePayload cell.payloadLen copy⟩

def cellOf (packet : Packet) (payload : Option Address) : PacketCell :=
  ⟨packet.version, packet.type, packet.reqId, packet.senderNodeHash, packet.payloadLen, payload⟩

/-! ### The functions of the source -/

section Functions

variable (allocator : Allocator (Object Addr)) (hash : CharArray 20)

/-- `packet_from_bytes`, where `bytes` is what its argument points to. -/
def packetFromBytes (memory : Ledger (Object Addr)) (bytes : Bytes) :
    Exec (Option Address × Ledger (Object Addr)) := do
  if bytes.length < HEADER_SIZE then
    return (none, memory)
  let (pack, memory) := allocate allocator memory .unset
  match ← PacketCodec.packetFromBytes bytes with
  | none =>
      let memory ← free memory pack
      return (none, memory)
  | some packet =>
      match packet.payload with
      | none =>
          let memory ← overwrite memory pack (.packet (cellOf packet none))
          return (some pack, memory)
      | some payload =>
          let (copy, memory) := allocate allocator memory (.chars (filled payload 0))
          let memory ← overwrite memory pack (.packet (cellOf packet (some copy)))
          return (some pack, memory)

def packetToBytes (memory : Ledger (Object Addr)) (packet : Address) :
    Exec ((Address × Nat) × Ledger (Object Addr)) := do
  let value ← readPacket memory packet
  let (buf, totalLen) ← PacketCodec.packetToBytes value
  let (output, memory) := allocate allocator memory (.chars buf)
  return ((output, totalLen), memory)

def packetDestroy (memory : Ledger (Object Addr)) : Option Address → Exec (Ledger (Object Addr))
  | none => .ok memory
  | some packet => do
      let cell ← loadPacket memory packet
      match cell.payload with
      | none => free memory packet
      | some payload =>
          let memory ← free memory payload
          free memory packet

def packetToString (memory : Ledger (Object Addr)) (packet : Address) :
    Exec (Address × Ledger (Object Addr)) := do
  let value ← readPacket memory packet
  let (output, memory) := allocate allocator memory (.chars (malloc 512))
  let sender ← cvtSha1ToString value.senderNodeHash
  let (senderHashOutput, memory) := allocate allocator memory (.chars sender)
  let (hex, _) ← cvtBytesToHex true (value.payload.getD []) value.payloadLen.toNat
  match hex with
  | none => .error .nullPointer
  | some hex =>
      let (payloadOutput, memory) := allocate allocator memory (.chars hex)
      let sender ← readString memory senderHashOutput
      let payload ← readString memory payloadOutput
      let block ← loadChars memory output
      let (line, _) ← sprintf block 0
        (packetFormat value.version value.type value.reqId sender value.payloadLen payload)
      let memory ← overwrite memory output (.chars line)
      let memory ← free memory senderHashOutput
      let memory ← free memory payloadOutput
      return (output, memory)

def packetNew (memory : Ledger (Object Addr)) (version type : UInt8) (reqId : UInt16)
    (payload : Option Bytes) (payloadLength : UInt16) : Exec (Address × Ledger (Object Addr)) := do
  let (p, memory) := allocate allocator memory .unset
  let (block, memory) := allocate allocator memory (.chars (malloc payloadLength.toNat))
  let copy ← readArray (payload.getD []) 0 payloadLength.toNat
  let memory ← overwrite memory block (.chars (filled copy.val 0))
  let memory ← overwrite memory p (.packet ⟨version, type, reqId, hash, payloadLength, some block⟩)
  return (p, memory)

/-- A packet made, put into `*output` and destroyed: the end of every answer. -/
def answerWith (memory : Ledger (Object Addr)) (type : UInt8) (reqId : UInt16)
    (payload : Option Bytes) (payloadLength : UInt16) :
    Exec ((Address × Nat) × Ledger (Object Addr)) := do
  let (p, memory) ← packetNew allocator hash memory 1 type reqId payload payloadLength
  let (output, memory) ← packetToBytes allocator memory p
  let memory ← packetDestroy memory (some p)
  return (output, memory)

def emptyCommand (memory : Ledger (Object Addr)) (_packet : Address) :
    Exec ((Address × Nat) × Ledger (Object Addr)) :=
  answerWith allocator hash memory CMD_ERROR 0 none 0

def commandPing (memory : Ledger (Object Addr)) (packet : Address) :
    Exec ((Address × Nat) × Ledger (Object Addr)) := do
  let cell ← loadPacket memory packet
  let pong := ascii "PONG"
  answerWith allocator hash memory CMD_PING cell.reqId (some pong) (UInt16.ofNat pong.length)

/-- `COMMAND_DISPATCHER` after `load_commands`. -/
def commandDispatcher :
    Vector (Ledger (Object Addr) → Address → Exec ((Address × Nat) × Ledger (Object Addr))) 256 :=
  (Vector.replicate 256 (emptyCommand allocator hash)).setIfInBounds CMD_PING.toNat
    (commandPing allocator hash)

/-- `default_logger`: the line is printed into a block of its own. -/
def defaultLogger (memory : Ledger (Object Addr)) (line : Bytes) : Exec (Ledger (Object Addr)) :=
  let (content, memory) := allocate allocator memory (.chars (filled (line ++ [0]) 0))
  free memory content

/-- `node_request_handler`: the block that `*output` points to, and the returned length. -/
def nodeRequestHandler (memory : Ledger (Object Addr)) (data : Address) (dataLength : Nat) :
    Exec ((Address × Nat) × Ledger (Object Addr)) := do
  let block ← loadChars memory data
  let bytes ← load block dataLength
  let (packet, memory) ← packetFromBytes allocator memory bytes
  match packet with
  | none =>
      let ((output, _), memory) ← answerWith allocator hash memory CMD_ERROR 0 none 0
      let memory ← packetDestroy memory none
      return ((output, 0), memory)
  | some packet =>
      let (packetStr, memory) ← packetToString allocator memory packet
      let line ← readString memory packetStr
      let memory ← defaultLogger allocator memory (ascii "received packet [" ++ line ++ ascii "]")
      let cell ← loadPacket memory packet
      let (output, memory) ←
        (commandDispatcher allocator hash).get ⟨cell.type.toNat, cell.type.toNat_lt⟩ memory packet
      let memory ← free memory packetStr
      let memory ← packetDestroy memory (some packet)
      return (output, memory)

end Functions

/-! ### Packets in memory -/

/-- The objects of the packet at a pointer. -/
inductive PacketAt (pointer : Address) (packet : Packet) : Multiset (Address × Object Addr) → Prop
  | null (hpayload : packet.payload = none) :
      PacketAt pointer packet {(pointer, .packet (cellOf packet none))}
  | block (payload : Address) (bytes : Bytes) (hpayload : packet.payload = some bytes) :
      PacketAt pointer packet
        ((pointer, .packet (cellOf packet (some payload))) ::ₘ {(payload, .chars (filled bytes 0))})

theorem stringAt_returns (text : Bytes) (room index : Nat) :
    ∃ string, stringAt index (filled (text ++ [0]) room) = .ok string := by
  induction text generalizing index with
  | nil => exact ⟨[], rfl⟩
  | cons byte rest ih =>
    obtain ⟨string, hstring⟩ := ih (index + 1)
    show ∃ string, (if byte = 0 then _ else stringAt (index + 1) (filled (rest ++ [0]) room) >>= _) = _
    by_cases hnul : byte = 0
    · exact ⟨[], if_pos hnul⟩
    · rw [if_neg hnul, hstring]
      exact ⟨byte :: string, rfl⟩

section Reading

variable {memory : Ledger (Object Addr)} {objects : Multiset (Address × Object Addr)}
  (h : Owns memory objects)

include h

theorem loadChars_eq {pointer : Address} {block : Block}
    (hmem : (pointer, Object.chars block) ∈ objects) : loadChars memory pointer = .ok block := by
  simp only [loadChars, h.fetch hmem, ok_bind, pure_eq_ok]

theorem loadPacket_eq {pointer : Address} {cell : PacketCell}
    (hmem : (pointer, Object.packet cell) ∈ objects) : loadPacket memory pointer = .ok cell := by
  simp only [loadPacket, h.fetch hmem, ok_bind, pure_eq_ok]

theorem readString_eq {pointer : Address} {text : Bytes} {room : Nat} (hnul : (0 : UInt8) ∉ text)
    (hmem : (pointer, Object.chars (filled (text ++ [0]) room)) ∈ objects) :
    readString memory pointer = .ok text := by
  rw [readString, loadChars_eq h hmem, ok_bind, stringAt_filled hnul]

/-- A string ends at the latest with the NUL behind the text. -/
theorem readString_returns {pointer : Address} {text : Bytes} {room : Nat}
    (hmem : (pointer, Object.chars (filled (text ++ [0]) room)) ∈ objects) :
    ∃ string, readString memory pointer = .ok string := by
  rw [readString, loadChars_eq h hmem, ok_bind]
  exact stringAt_returns text room 0

variable {pointer : Address} {packet : Packet} {own : Multiset (Address × Object Addr)}
  (hat : PacketAt pointer packet own) (hle : own ≤ objects)

include hat hle

theorem PacketAt.loadPacket :
    ∃ payload, PacketMemory.loadPacket memory pointer = .ok (cellOf packet payload) := by
  cases hat with
  | null hpayload =>
    exact ⟨none, loadPacket_eq h (Multiset.mem_of_le hle (Multiset.mem_singleton_self _))⟩
  | block payload bytes hpayload =>
    exact ⟨some payload, loadPacket_eq h (Multiset.mem_of_le hle (Multiset.mem_cons_self _ _))⟩

theorem PacketAt.readPacket : PacketMemory.readPacket memory pointer = .ok packet := by
  obtain ⟨version, type, reqId, hash, payloadLen, payload, hlength⟩ := packet
  cases hat with
  | null hpayload =>
    simp only at hpayload
    subst hpayload
    have hempty : payloadLen = 0 := UInt16.toNat_inj.mp hlength.symm
    have hcell := loadPacket_eq h (Multiset.mem_of_le hle (Multiset.mem_singleton_self _))
    simp only [PacketMemory.readPacket, hcell, ok_bind, cellOf, dif_pos hempty, pure_eq_ok]
  | block payload bytes hpayload =>
    simp only at hpayload
    subst hpayload
    have hbytes : bytes.length = payloadLen.toNat := hlength
    have hcell := loadPacket_eq h (Multiset.mem_of_le hle (Multiset.mem_cons_self _ _))
    have hblock := loadChars_eq h (Multiset.mem_of_le hle
      (Multiset.mem_cons_of_mem (Multiset.mem_singleton_self _)))
    have hload : load (filled bytes 0) payloadLen.toNat = .ok bytes := by
      rw [load_filled (Nat.le_of_eq hbytes.symm), ← hbytes, List.take_length]
    have hread : readArray bytes 0 payloadLen.toNat = .ok ⟨bytes, hbytes⟩ := by
      rw [readArray_eq_ok (by rw [Nat.zero_add, hbytes])]
      simp only [slice, List.drop_zero, ← hbytes, List.take_length]
    simp only [PacketMemory.readPacket, hcell, ok_bind, cellOf, hblock, hload, hread, pure_eq_ok]

end Reading

/-- Destroying a packet frees its objects. -/
theorem PacketAt.packetDestroy {memory : Ledger (Object Addr)} {pointer : Address} {packet : Packet}
    {own rest : Multiset (Address × Object Addr)} (hat : PacketAt pointer packet own)
    (h : Owns memory (own + rest)) :
    ∃ memory', PacketMemory.packetDestroy memory (some pointer) = .ok memory' ∧ Owns memory' rest := by
  cases hat with
  | null hpayload =>
    rw [Multiset.singleton_add] at h
    obtain ⟨memory', hfree, hrest⟩ := h.free
    refine ⟨memory', ?_, hrest⟩
    simp only [PacketMemory.packetDestroy, loadPacket_eq h (Multiset.mem_cons_self _ _), ok_bind,
      cellOf, hfree]
  | block payload bytes hpayload =>
    rw [Multiset.cons_add, Multiset.singleton_add] at h
    have hcell := loadPacket_eq h (Multiset.mem_cons_self _ _)
    rw [Multiset.cons_swap] at h
    obtain ⟨memory₁, hpayload, hmiddle⟩ := h.free
    obtain ⟨memory₂, hpacket, hrest⟩ := hmiddle.free
    refine ⟨memory₂, ?_, hrest⟩
    simp only [PacketMemory.packetDestroy, hcell, ok_bind, cellOf, hpayload, hpacket]

/-! ### What the functions do to the memory -/

section Specifications

variable (allocator : Allocator (Object Addr)) {hash : CharArray 20}
  {memory : Ledger (Object Addr)} {objects : Multiset (Address × Object Addr)}
  (h : Owns memory objects)

include h

/-- A packet is allocated, or nothing is. -/
theorem packetFromBytes_agrees (bytes : Bytes) :
    Agrees (PacketCodec.packetFromBytes bytes)
      (fun packet result => match packet with
        | none => result.1 = none ∧ Owns result.2 objects
        | some packet => ∃ pointer own, result.1 = some pointer ∧ PacketAt pointer packet own ∧
            Owns result.2 (own + objects))
      (packetFromBytes allocator memory bytes) := by
  rw [packetFromBytes]
  by_cases hshort : bytes.length < HEADER_SIZE
  · have hnone : PacketCodec.packetFromBytes bytes = .ok none := by
      rw [PacketCodec.packetFromBytes, if_pos hshort]
      rfl
    rw [if_pos hshort]
    exact agrees_ok (none, memory) hnone rfl ⟨rfl, h⟩
  rw [if_neg hshort]
  rcases hnew : allocate allocator memory .unset with ⟨pack, memory₁⟩
  have h₁ := h.allocate hnew
  rcases hdecoded : PacketCodec.packetFromBytes bytes with fault | (_ | packet)
  · exact agrees_error rfl rfl
  · obtain ⟨memory₂, hfree, h₂⟩ := h₁.free
    refine agrees_ok (none, memory₂) rfl ?_ ⟨rfl, h₂⟩
    simp only [ok_bind, hfree, pure_eq_ok]
  · rcases hpayload : packet.payload with _ | payload
    · obtain ⟨memory₂, hwrite, h₂⟩ := h₁.overwrite (.packet (cellOf packet none))
      refine agrees_ok (some pack, memory₂) rfl ?_ ⟨pack, _, rfl, .null hpayload, h₂⟩
      simp only [ok_bind, hpayload, hwrite, pure_eq_ok]
    · rcases hnew' : allocate allocator memory₁ (.chars (filled payload 0)) with ⟨copy, memory₂⟩
      have h₂ := h₁.allocate hnew'
      rw [Multiset.cons_swap] at h₂
      obtain ⟨memory₃, hwrite, h₃⟩ := h₂.overwrite (.packet (cellOf packet (some copy)))
      rw [← Multiset.singleton_add (copy, _), ← Multiset.cons_add] at h₃
      refine agrees_ok (some pack, memory₃) rfl ?_ ⟨pack, _, rfl, .block copy payload hpayload, h₃⟩
      simp only [ok_bind, hpayload, hnew', hwrite, pure_eq_ok]

theorem packetNew_eq {version type : UInt8} {reqId : UInt16} {payload : Option Bytes}
    {payloadLength : UInt16} {packet : Packet}
    (hvalue : RequestHandler.packetNew (some hash) version type reqId payload payloadLength =
      .ok packet) :
    ∃ p own memory', packetNew allocator hash memory version type reqId payload payloadLength =
      .ok (p, memory') ∧ PacketAt p packet own ∧ Owns memory' (own + objects) := by
  obtain ⟨copy, hcopy, hvalue⟩ := bind_eq_ok hvalue
  cases hvalue
  rcases hnew : allocate allocator memory .unset with ⟨p, memory₁⟩
  have h₁ := h.allocate hnew
  rcases hnew' : allocate allocator memory₁ (.chars (malloc payloadLength.toNat)) with
    ⟨block, memory₂⟩
  obtain ⟨memory₃, hblock, h₃⟩ := (h₁.allocate hnew').overwrite (.chars (filled copy.val 0))
  rw [Multiset.cons_swap] at h₃
  obtain ⟨memory₄, hpacket, h₄⟩ := h₃.overwrite
    (.packet ⟨version, type, reqId, hash, payloadLength, some block⟩)
  rw [← Multiset.singleton_add (block, _), ← Multiset.cons_add] at h₄
  refine ⟨p, _, memory₄, ?_, .block block copy.val rfl, h₄⟩
  simp only [packetNew, hnew, hnew', hcopy, ok_bind, hblock, hpacket, pure_eq_ok]

theorem packetToBytes_eq {pointer : Address} {packet : Packet}
    {own : Multiset (Address × Object Addr)} (hat : PacketAt pointer packet own)
    (hle : own ≤ objects) {buf : Block} {len : Nat}
    (hvalue : PacketCodec.packetToBytes packet = .ok (buf, len)) :
    ∃ output memory', packetToBytes allocator memory pointer = .ok ((output, len), memory') ∧
      Owns memory' ((output, .chars buf) ::ₘ objects) := by
  rcases hnew : allocate allocator memory (.chars buf) with ⟨output, memory₁⟩
  refine ⟨output, memory₁, ?_, h.allocate hnew⟩
  simp only [packetToBytes, hat.readPacket h hle, ok_bind, hvalue, hnew, pure_eq_ok]

/-- The answer is left, and its packet is gone. -/
theorem answerWith_eq {type : UInt8} {reqId : UInt16} {payload : Option Bytes}
    {payloadLength : UInt16} {packet : Packet} {buf : Block} {len : Nat}
    (hpacket : RequestHandler.packetNew (some hash) 1 type reqId payload payloadLength = .ok packet)
    (hbytes : PacketCodec.packetToBytes packet = .ok (buf, len)) :
    ∃ output memory', answerWith allocator hash memory type reqId payload payloadLength =
      .ok ((output, len), memory') ∧ Owns memory' ((output, .chars buf) ::ₘ objects) := by
  obtain ⟨p, own, memory₁, hnew, hat, h₁⟩ := packetNew_eq allocator h hpacket
  obtain ⟨output, memory₂, hto, h₂⟩ :=
    packetToBytes_eq allocator h₁ hat (Multiset.le_add_right _ _) hbytes
  rw [← Multiset.add_cons] at h₂
  obtain ⟨memory₃, hdestroy, h₃⟩ := hat.packetDestroy h₂
  refine ⟨output, memory₃, ?_, h₃⟩
  simp only [answerWith, hnew, ok_bind, hto, hdestroy, pure_eq_ok]

/-- The line is left, and the two texts in it are gone. -/
theorem packetToString_agrees {pointer : Address} {packet : Packet}
    {own : Multiset (Address × Object Addr)} (hat : PacketAt pointer packet own)
    (hle : own ≤ objects) :
    Agrees (PacketText.packetToString packet)
      (fun line result => Owns result.2 ((result.1, .chars line) ::ₘ objects))
      (packetToString allocator memory pointer) := by
  obtain ⟨room, hhex⟩ : ∃ room, cvtBytesToHex true (packet.payload.getD []) packet.payloadLen.toNat =
      .ok (some (filled (hexText (packet.payload.getD []) ++ [0]) room),
        (hexText (packet.payload.getD [])).length) := by
    have hsize := packet.payloadLen.toNat_lt
    rw [← packet.length_payload] at hsize ⊢
    exact ⟨_, cvtBytesToHex_eq (by omega)⟩
  rcases hnew₁ : allocate allocator memory (.chars (malloc 512)) with ⟨output, memory₁⟩
  rcases hnew₂ : allocate allocator memory₁
    (.chars (filled (hexDigits packet.senderNodeHash.val ++ [0]) 0)) with ⟨sender, memory₂⟩
  rcases hnew₃ : allocate allocator memory₂
    (.chars (filled (hexText (packet.payload.getD []) ++ [0]) room)) with ⟨payload, memory₃⟩
  have h₃ := ((h.allocate hnew₁).allocate hnew₂).allocate hnew₃
  have hsender := readString_eq h₃ (nul_not_mem_hexDigits packet.senderNodeHash.val)
    (Multiset.mem_cons_of_mem (Multiset.mem_cons_self _ _))
  have hpayload := readString_eq h₃ (nul_not_mem_hexText (packet.payload.getD []))
    (Multiset.mem_cons_self _ _)
  have hblock := loadChars_eq h₃
    (Multiset.mem_cons_of_mem (Multiset.mem_cons_of_mem (Multiset.mem_cons_self _ _)))
  simp only [PacketText.packetToString, packetToString, hat.readPacket h hle, cvtSha1ToString_eq, hhex,
    ok_bind, pure_eq_ok, stringAt_filled (nul_not_mem_hexDigits _),
    stringAt_filled (nul_not_mem_hexText _), hnew₁, hnew₂, hnew₃, hsender, hpayload, hblock]
  rcases hprint : sprintf (malloc 512) 0 _ with fault | ⟨line, length⟩
  · exact agrees_error rfl rfl
  · rw [cons_rotate] at h₃
    obtain ⟨memory₄, hwrite, h₄⟩ := h₃.overwrite (.chars line)
    rw [Multiset.cons_swap] at h₄
    obtain ⟨memory₅, hfree, h₅⟩ := h₄.free
    rw [Multiset.cons_swap] at h₅
    obtain ⟨memory₆, hfree', h₆⟩ := h₅.free
    refine agrees_ok (output, memory₆) rfl ?_ h₆
    simp only [ok_bind, hwrite, hfree, hfree']

/-- A command leaves the answer that is due to the packet. -/
theorem commandDispatcher_eq {pointer : Address} {packet : Packet}
    {own : Multiset (Address × Object Addr)} (hat : PacketAt pointer packet own)
    (hle : own ≤ objects) {buf : Block} {len : Nat}
    (hvalue : PacketCodec.packetToBytes (RequestHandler.replyTo hash packet) = .ok (buf, len)) :
    ∃ output memory', (commandDispatcher allocator hash).get
        ⟨packet.type.toNat, packet.type.toNat_lt⟩ memory pointer = .ok ((output, len), memory') ∧
      Owns memory' ((output, .chars buf) ::ₘ objects) := by
  have hget : (commandDispatcher allocator hash).get ⟨packet.type.toNat, packet.type.toNat_lt⟩ =
      if packet.type = CMD_PING then commandPing allocator hash else emptyCommand allocator hash := by
    have htype : packet.type.toNat < 256 := packet.type.toNat_lt
    show (commandDispatcher allocator hash)[packet.type.toNat] = _
    rw [commandDispatcher, Vector.getElem_setIfInBounds htype, Vector.getElem_replicate]
    simp only [UInt8.toNat_inj, eq_comm]
  rw [hget]
  rw [RequestHandler.replyTo] at hvalue
  by_cases hping : packet.type = CMD_PING
  · rw [if_pos hping] at hvalue ⊢
    obtain ⟨payload, hcell⟩ := hat.loadPacket h hle
    rw [commandPing, hcell, ok_bind]
    exact answerWith_eq allocator h rfl hvalue
  · rw [if_neg hping] at hvalue ⊢
    exact answerWith_eq allocator h rfl hvalue

theorem defaultLogger_eq (line : Bytes) :
    ∃ memory', defaultLogger allocator memory line = .ok memory' ∧ Owns memory' objects := by
  rcases hnew : allocate allocator memory (.chars (filled (line ++ [0]) 0)) with ⟨content, memory₁⟩
  obtain ⟨memory₂, hfree, h₂⟩ := (h.allocate hnew).free
  refine ⟨memory₂, ?_, h₂⟩
  simp only [defaultLogger, hnew, hfree]

omit h in
theorem packetToString_eq_filled {packet : Packet} {line : Block}
    (hline : PacketText.packetToString packet = .ok line) :
    ∃ text room, line = filled (text ++ [0]) room := by
  rw [PacketText.packetToString_eq] at hline
  by_cases hfits : (PacketText.packetText packet).length + 1 ≤ 512
  · rw [if_pos hfits] at hline
    exact ⟨_, _, (Except.ok.inj hline).symm⟩
  · rw [if_neg hfits] at hline
    cases hline

variable (hash) in
/-- **The handler leaves its answer, and nothing else.**  Whatever the datagram, the
    handler with its allocations returns exactly if the handler of `RequestHandler.lean`
    does, with the same length and a block of the same bytes; everything else that it has
    allocated is freed, and nothing twice. -/
theorem nodeRequestHandler_agrees (table : RequestHandler.CommandTable) {data : Address}
    {bytes : Bytes} (hdata : (data, Object.chars (filled bytes 0)) ∈ objects) :
    Agrees (RequestHandler.nodeRequestHandler RequestHandler.renderLog
        (RequestHandler.loadCommands table) (some hash) bytes)
      (fun answer result => result.1.2 = answer.2 ∧
        Owns result.2 ((result.1.1, .chars answer.1) ::ₘ objects))
      (nodeRequestHandler allocator hash memory data bytes.length) := by
  have hload : load (filled bytes 0) bytes.length = .ok bytes := by
    rw [load_filled (Nat.le_refl _), List.take_length]
  rw [nodeRequestHandler, loadChars_eq h hdata, ok_bind, hload, ok_bind,
    RequestHandler.nodeRequestHandler]
  refine (packetFromBytes_agrees allocator h bytes).bind ?_
  rintro (_ | packet) ⟨pointer, memory₁⟩ - hpacket
  · obtain ⟨rfl, h₁⟩ := hpacket
    have hbytes := PacketCodec.packetToBytes_eq (RequestHandler.errorPacket hash)
    obtain ⟨output, memory₂, hanswer, h₂⟩ :=
      answerWith_eq allocator h₁ (RequestHandler.packetNew_error hash) hbytes
    have hvalue : (do
        let p ← RequestHandler.packetNew (some hash) 1 CMD_ERROR 0 none 0
        let (output, _) ← PacketCodec.packetToBytes p
        return (output, 0)) =
        .ok (filled (PacketCodec.wire (RequestHandler.errorPacket hash)) 0, 0) := by
      simp only [RequestHandler.packetNew_error, hbytes, ok_bind, pure_eq_ok]
    refine agrees_ok ((output, 0), memory₂) hvalue ?_ ⟨rfl, h₂⟩
    simp only [hanswer, packetDestroy, ok_bind, pure_eq_ok]
  · obtain ⟨pointer, own, rfl, hat, h₁⟩ := hpacket
    have hle : own ≤ own + objects := Multiset.le_add_right _ _
    have hbytes := PacketCodec.packetToBytes_eq (RequestHandler.replyTo hash packet)
    simp only [RequestHandler.renderLog, bind_assoc, pure_eq_ok, ok_bind, RequestHandler.dispatch_eq,
      hbytes]
    refine (packetToString_agrees allocator h₁ hat hle).bind ?_
    rintro line ⟨packetStr, memory₂⟩ hline h₂
    obtain ⟨text, htext⟩ : ∃ text, readString memory₂ packetStr = .ok text := by
      obtain ⟨text, room, rfl⟩ := packetToString_eq_filled hline
      exact readString_returns h₂ (Multiset.mem_cons_self _ _)
    obtain ⟨memory₃, hlogger, h₃⟩ :=
      defaultLogger_eq allocator h₂ (ascii "received packet [" ++ text ++ ascii "]")
    have hle' : own ≤ (packetStr, Object.chars line) ::ₘ (own + objects) :=
      hle.trans (Multiset.le_cons_self _ _)
    obtain ⟨payload, hcell⟩ := hat.loadPacket h₃ hle'
    obtain ⟨output, memory₄, hcommand, h₄⟩ :=
      commandDispatcher_eq allocator h₃ hat hle' hbytes
    rw [Multiset.cons_swap] at h₄
    obtain ⟨memory₅, hfree, h₅⟩ := h₄.free
    rw [← Multiset.add_cons] at h₅
    obtain ⟨memory₆, hdestroy, h₆⟩ := hat.packetDestroy h₅
    refine agrees_ok ((output, _), memory₆) rfl ?_ ⟨rfl, h₆⟩
    simp only [htext, hlogger, hcell, cellOf, hcommand, hfree, hdestroy, ok_bind]

end Specifications

end Cdht.PacketMemory
