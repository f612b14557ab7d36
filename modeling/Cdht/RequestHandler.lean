/-
  Cdht/RequestHandler.lean
  ========================
  **The request handler and its command table.**

  `load_commands` fills a table of 256 function pointers, one for each packet type,
  and `node_request_handler` answers a datagram with the command of its type, or
  with an error packet of its own when the datagram is malformed.  Rendering the
  packet for the log is a parameter of the handler, so that a statement can leave
  it aside (`noLog`) or include it (`renderLog`).
-/
import Cdht.PacketText

namespace Cdht.RequestHandler

open Cdht.Memory Cdht.Format Cdht.PacketCodec Cdht.PacketText

/-! ### The functions of the source -/

/-- `global_node->hash`; `none` is a NULL `global_node`. -/
abbrev GlobalNode := Option (CharArray 20)

/-- The packet types that the modelled functions use. -/
def CMD_ERROR : UInt8 := 4

def CMD_PING : UInt8 := 5

def packetNew (globalNode : GlobalNode) (version type : UInt8) (reqId : UInt16)
    (payload : Option Bytes) (payloadLength : UInt16) : Exec Packet := do
  let copy ← readArray (payload.getD []) 0 payloadLength.toNat
  match globalNode with
  | none => .error .nullPointer
  | some hash =>
      return ⟨version, type, reqId, hash, payloadLength, some copy.val,
        length_somePayload payloadLength copy⟩

abbrev Command := GlobalNode → Packet → Exec (Block × Nat)

def emptyCommand : Command := fun globalNode _ => do
  let p ← packetNew globalNode 1 CMD_ERROR 0 none 0
  packetToBytes p

def commandPing : Command := fun globalNode packet => do
  let pong := ascii "PONG"
  let p ← packetNew globalNode 1 CMD_PING packet.reqId (some pong) (UInt16.ofNat pong.length)
  packetToBytes p

/-- `COMMAND_DISPATCHER`; `none` is a NULL pointer. -/
abbrev CommandTable := Vector (Option Command) 256

def loadCommandsLoop : (n i : Nat) → CommandTable → CommandTable
  | 0, _, table => table
  | n + 1, i, table => loadCommandsLoop n (i + 1) (table.setIfInBounds i (some emptyCommand))

def loadCommands (table : CommandTable) : CommandTable :=
  (loadCommandsLoop 256 0 table).setIfInBounds CMD_PING.toNat (some commandPing)

def dispatch (table : CommandTable) (globalNode : GlobalNode) (packet : Packet) :
    Exec (Block × Nat) :=
  match table.get ⟨packet.type.toNat, packet.type.toNat_lt⟩ with
  | none => .error .nullPointer
  | some command => command globalNode packet

/-- `node_request_handler`.  On the malformed path the length of the error packet is
    dropped: `len` keeps its initial value 0. -/
def nodeRequestHandler (log : Packet → Exec Unit) (table : CommandTable)
    (globalNode : GlobalNode) (data : Bytes) : Exec (Block × Nat) := do
  match ← packetFromBytes data with
  | none =>
      let p ← packetNew globalNode 1 CMD_ERROR 0 none 0
      let (output, _) ← packetToBytes p
      return (output, 0)
  | some packet =>
      log packet
      dispatch table globalNode packet

def noLog : Packet → Exec Unit := fun _ => .ok ()

def renderLog : Packet → Exec Unit := fun packet => do
  let _ ← packetToString packet
  return ()

/-- What a worker sends back: the first `len` bytes of `*output`. -/
def replyBytes (log : Packet → Exec Unit) (table : CommandTable) (globalNode : GlobalNode)
    (data : Bytes) : Exec Bytes := do
  let (output, len) ← nodeRequestHandler log table globalNode data
  load output len

/-! ### The command table -/

theorem getElem_loadCommandsLoop (n : Nat) : ∀ (i k : Nat) (table : CommandTable) (hk : k < 256),
    (loadCommandsLoop n i table)[k] =
      if i ≤ k ∧ k < i + n then some emptyCommand else table[k] := by
  induction n with
  | zero =>
    intro i k table hk
    have hnone : ¬ (i ≤ k ∧ k < i + 0) := by omega
    rw [if_neg hnone]
    rfl
  | succ n ih =>
    intro i k table hk
    rw [loadCommandsLoop, ih (i + 1) k _ hk, Vector.getElem_setIfInBounds]
    by_cases hhere : i = k
    · have hlater : ¬ (i + 1 ≤ k ∧ k < i + 1 + n) := by omega
      have hrange : i ≤ k ∧ k < i + (n + 1) := by omega
      rw [if_neg hlater, if_pos hhere, if_pos hrange]
    · have hrange : (i + 1 ≤ k ∧ k < i + 1 + n) ↔ (i ≤ k ∧ k < i + (n + 1)) := by omega
      rw [if_neg hhere]
      simp only [hrange]

/-- **After `load_commands` every type has a command**: `command_ping` for a ping,
    `_empty_command` for all others. -/
theorem dispatch_loadCommands (table : CommandTable) (globalNode : GlobalNode)
    (packet : Packet) :
    dispatch (loadCommands table) globalNode packet =
      if packet.type = CMD_PING then commandPing globalNode packet
      else emptyCommand globalNode packet := by
  have htype : packet.type.toNat < 256 := packet.type.toNat_lt
  have hentry : (loadCommands table).get ⟨packet.type.toNat, htype⟩ =
      some (if packet.type = CMD_PING then commandPing else emptyCommand) := by
    show (loadCommands table)[packet.type.toNat] = _
    rw [loadCommands, Vector.getElem_setIfInBounds htype, getElem_loadCommandsLoop 256 0 _ table]
    by_cases hping : packet.type = CMD_PING
    · have hsame : CMD_PING.toNat = packet.type.toNat := by rw [hping]
      rw [if_pos hping, if_pos hsame]
    · have hother : CMD_PING.toNat ≠ packet.type.toNat := by
        intro h
        exact hping (UInt8.toNat_inj.mp h.symm)
      rw [if_neg hping, if_neg hother, if_pos (by omega)]
  rw [dispatch, hentry]
  by_cases hping : packet.type = CMD_PING
  · rw [if_pos hping, if_pos hping]
  · rw [if_neg hping, if_neg hping]

/-! ### The replies -/

def errorPacket (hash : CharArray 20) : Packet := ⟨1, CMD_ERROR, 0, hash, 0, some [], rfl⟩

def pongPacket (hash : CharArray 20) (reqId : UInt16) : Packet :=
  ⟨1, CMD_PING, reqId, hash, 4, some (ascii "PONG"), rfl⟩

theorem packetNew_error (hash : CharArray 20) :
    packetNew (some hash) 1 CMD_ERROR 0 none 0 = .ok (errorPacket hash) := rfl

def replyTo (hash : CharArray 20) (request : Packet) : Packet :=
  if request.type = CMD_PING then pongPacket hash request.reqId else errorPacket hash

theorem dispatch_eq (table : CommandTable) (hash : CharArray 20) (request : Packet) :
    dispatch (loadCommands table) (some hash) request =
      packetToBytes (replyTo hash request) := by
  rw [dispatch_loadCommands, replyTo]
  by_cases hping : request.type = CMD_PING
  · rw [if_pos hping, if_pos hping]
    rfl
  · rw [if_neg hping, if_neg hping]
    rfl

theorem replyBytes_of_accepted (table : CommandTable) (hash : CharArray 20) {data : Bytes}
    {request : Packet} (h : packetFromBytes data = .ok (some request)) :
    replyBytes noLog (loadCommands table) (some hash) data = .ok (wire (replyTo hash request)) := by
  rw [← encode_eq, replyBytes, nodeRequestHandler, h]
  simp only [ok_bind, noLog, dispatch_eq]
  rfl

theorem replyBytes_of_rejected (log : Packet → Exec Unit) (table : CommandTable)
    (hash : CharArray 20) {data : Bytes} (h : packetFromBytes data = .ok none) :
    replyBytes log table (some hash) data = .ok [] := by
  rw [replyBytes, nodeRequestHandler, h]
  simp only [ok_bind, packetNew_error, packetToBytes_eq, pure_eq_ok]
  rw [load_filled (Nat.zero_le _)]
  rfl

/-! ### When a datagram is answered as it should be -/

/-- The bytes sent back for `data` are accepted, and decode to a pong with the request's
    id if `data` is an accepted ping, and to an error packet without payload otherwise. -/
def Answers (data sent : Bytes) : Prop :=
  ∃ reply, packetFromBytes sent = .ok (some reply) ∧
    ((∃ request, packetFromBytes data = .ok (some request) ∧ request.type = CMD_PING ∧
        reply.type = CMD_PING ∧ reply.payload = some (ascii "PONG") ∧
        reply.reqId = request.reqId) ∨
      ((∀ request, packetFromBytes data = .ok (some request) → request.type ≠ CMD_PING) ∧
        reply.type = CMD_ERROR ∧ reply.payload = none))

/-- **Exactly the well-formed datagrams are answered.**  For every byte string, with
    the commands loaded into any table and `global_node` set: the handler returns,
    and what the server sends back is the reply that is due, if and only if the
    datagram holds a header and the payload that the header announces. -/
theorem every_datagram_answered_iff (table : CommandTable) (hash : CharArray 20) (data : Bytes) :
    (∃ sent, replyBytes noLog (loadCommands table) (some hash) data = .ok sent ∧
      Answers data sent) ↔
    HEADER_SIZE ≤ data.length ∧ HEADER_SIZE + announcedLength data ≤ data.length := by
  rcases packetFromBytes_cases data with ⟨hbad, hnone⟩ | ⟨hwell, request, hsome, -⟩
  · refine iff_of_false ?_ hbad
    rintro ⟨sent, hsent, reply, hreply, -⟩
    rw [replyBytes_of_rejected noLog _ hash hnone] at hsent
    cases hsent
    cases hreply
  · refine iff_of_true ⟨_, replyBytes_of_accepted table hash hsome, ?_⟩ hwell
    refine ⟨_, packetFromBytes_wire _, ?_⟩
    by_cases hping : request.type = CMD_PING
    · left
      rw [replyTo, if_pos hping]
      exact ⟨request, hsome, hping, rfl, rfl, rfl⟩
    · right
      rw [replyTo, if_neg hping]
      refine ⟨?_, rfl, rfl⟩
      intro request' hsome'
      rw [hsome] at hsome'
      cases hsome'
      exact hping

def nullTable : CommandTable := Vector.replicate 256 none

theorem one_byte_not_answered :
    replyBytes noLog (loadCommands nullTable) (some ⟨List.replicate 20 9, rfl⟩) [0] = .ok [] ∧
      packetFromBytes [] = .ok none ∧
      ¬ ∃ sent, replyBytes noLog (loadCommands nullTable) (some ⟨List.replicate 20 9, rfl⟩) [0] =
        .ok sent ∧ Answers [0] sent := by
  have hsent : replyBytes noLog (loadCommands nullTable) (some ⟨List.replicate 20 9, rfl⟩) [0] =
      .ok [] := replyBytes_of_rejected noLog _ _ rfl
  refine ⟨hsent, rfl, ?_⟩
  rintro ⟨sent, hsent', reply, hreply, -⟩
  rw [hsent] at hsent'
  cases hsent'
  cases hreply

/-! ### The log line -/

/-- **The log line decides between the reply and a fault.**  With the rendering of
    the packet included, an accepted datagram whose line fits is handled as without
    it, and any other one is written past the end of the log buffer. -/
theorem nodeRequestHandler_renderLog (table : CommandTable) (globalNode : GlobalNode)
    {data : Bytes} {request : Packet} (h : packetFromBytes data = .ok (some request)) :
    nodeRequestHandler renderLog table globalNode data =
      if FitsLogLine request then nodeRequestHandler noLog table globalNode data
      else .error (.outOfBounds 512) := by
  have hlog : renderLog request =
      if FitsLogLine request then .ok () else .error (.outOfBounds 512) := by
    rw [renderLog, packetToString_eq]
    simp only [packetText_fits_iff]
    split
    · rfl
    · rfl
  rw [nodeRequestHandler, nodeRequestHandler, h]
  simp only [ok_bind, hlog, noLog]
  split
  · rfl
  · rfl

end Cdht.RequestHandler
