/-
  Cdht/Handshake.lean
  ===================
  **A request from end to end.**

  A client encodes a packet, the node decodes it, looks its type up in the command
  table, builds a reply and encodes that, and the client decodes what it receives.
  Composed over the format of `PacketCodec.lean`, the five passes are one function
  of the request's type and, for a ping, of its id (`exchange_eq`).  The start-up
  code of `main` tests the reply for the text of a pong.
-/
import Cdht.Strings
import Cdht.RequestHandler

namespace Cdht.Handshake

open Cdht.Memory Cdht.Strings Cdht.Format Cdht.PacketCodec Cdht.RequestHandler

/-- The condition under which `main` takes a seed node for alive:
    `res != NULL && memcmp("PONG", res->payload, 4) == 0`. -/
def handshakeTest : Option Packet → Exec Bool
  | none => .ok false
  | some res =>
      match res.payload with
      | none => .error .nullPointer
      | some payload => do
          let front ← readAt payload 0 4
          return decide (memcmp (ascii "PONG") front = 0)

/-- What the client decodes from the answer to `request`, with the network between
    them left out. -/
def exchange (table : CommandTable) (globalNode : GlobalNode) (request : Packet) :
    Exec (Option Packet) := do
  let data ← encode request
  let sent ← replyBytes noLog (loadCommands table) globalNode data
  packetFromBytes sent

/-! ### The five passes as one -/

/-- The reply looks at a request's type and id only, and the codec keeps these. -/
theorem replyTo_nullIfEmpty (hash : CharArray 20) (request : Packet) :
    replyTo hash (nullIfEmpty request) = replyTo hash request := by
  unfold nullIfEmpty
  split
  · rfl
  · rfl

theorem replyBytes_wire (table : CommandTable) (hash : CharArray 20) (request : Packet) :
    replyBytes noLog (loadCommands table) (some hash) (wire request) =
      .ok (wire (replyTo hash request)) := by
  rw [← replyTo_nullIfEmpty]
  apply replyBytes_of_accepted
  exact packetFromBytes_wire request

theorem exchange_eq (table : CommandTable) (hash : CharArray 20) (request : Packet) :
    exchange table (some hash) request = .ok (some (nullIfEmpty (replyTo hash request))) := by
  rw [exchange, encode_eq, ok_bind, replyBytes_wire, ok_bind]
  exact packetFromBytes_wire _

theorem replyTo_congr (hash : CharArray 20) {request request' : Packet}
    (htype : request.type = request'.type)
    (hreqId : request.type = CMD_PING → request.reqId = request'.reqId) :
    replyTo hash request = replyTo hash request' := by
  by_cases hping : request.type = CMD_PING
  · have hping' : request'.type = CMD_PING := htype ▸ hping
    simp only [replyTo, if_pos hping, if_pos hping', hreqId hping]
  · have hother : request'.type ≠ CMD_PING := htype ▸ hping
    simp only [replyTo, if_neg hping, if_neg hother]

/-! ### The exchange -/

/-- **A ping is answered with its pong, anything else with an error.**  For every
    packet, the client decodes a reply of version 1 from the node itself: for a ping
    a pong with the same id, on which the test of `main` succeeds, and for any other
    type an error packet without payload.  Requests that agree on the type and, if
    they are pings, on the id get the same bytes back. -/
theorem exchange_answers (table : CommandTable) (hash : CharArray 20) :
    (∀ request : Packet, ∃ reply, exchange table (some hash) request = .ok (some reply) ∧
      reply.version = 1 ∧ reply.senderNodeHash = hash ∧
      (request.type = CMD_PING →
        reply.type = CMD_PING ∧ reply.reqId = request.reqId ∧
          reply.payload = some (ascii "PONG") ∧ handshakeTest (some reply) = .ok true) ∧
      (request.type ≠ CMD_PING →
        reply.type = CMD_ERROR ∧ reply.payloadLen = 0 ∧ reply.payload = none)) ∧
    (∀ (request request' : Packet) (data data' : Bytes),
      encode request = .ok data → encode request' = .ok data' →
      request.type = request'.type →
      (request.type = CMD_PING → request.reqId = request'.reqId) →
      ∃ sent, replyBytes noLog (loadCommands table) (some hash) data = .ok sent ∧
        replyBytes noLog (loadCommands table) (some hash) data' = .ok sent) := by
  constructor
  · intro request
    refine ⟨_, exchange_eq table hash request, ?_⟩
    by_cases hping : request.type = CMD_PING
    · rw [replyTo, if_pos hping]
      refine ⟨rfl, rfl, ?_, ?_⟩
      · intro _
        exact ⟨rfl, rfl, rfl, rfl⟩
      · intro hother
        exact absurd hping hother
    · rw [replyTo, if_neg hping]
      refine ⟨rfl, rfl, ?_, ?_⟩
      · intro hping'
        exact absurd hping' hping
      · intro _
        exact ⟨rfl, rfl, rfl⟩
  · intro request request' data data' hdata hdata' htype hreqId
    rw [encode_eq] at hdata hdata'
    cases hdata
    cases hdata'
    refine ⟨wire (replyTo hash request), replyBytes_wire table hash request, ?_⟩
    rw [replyTo_congr hash htype hreqId]
    exact replyBytes_wire table hash request'

def zeroHash : CharArray 20 := ⟨List.replicate 20 0, length_zeros⟩

def pingOf (reqId : UInt16) : Packet := ⟨1, CMD_PING, reqId, zeroHash, 0, none, length_noPayload⟩

theorem exchange_answers_ping :
    ∃ reply, exchange nullTable (some zeroHash) (pingOf 258) = .ok (some reply) ∧
      reply.reqId = 258 ∧ handshakeTest (some reply) = .ok true := by
  obtain ⟨reply, hreply, -, -, hping, -⟩ :=
    (exchange_answers nullTable zeroHash).1 (pingOf 258)
  obtain ⟨-, hreqId, -, htest⟩ := hping rfl
  exact ⟨reply, hreply, hreqId, htest⟩

/-! ### Which replies can be attributed -/

/-- **A reply names its request exactly for pings and for the id 0.**  The error
    command puts 0 where `command_ping` puts the id of the request. -/
theorem reply_attributable_iff (table : CommandTable) (hash : CharArray 20) {data : Bytes}
    {request : Packet} (haccepted : packetFromBytes data = .ok (some request)) :
    (∃ sent reply, replyBytes noLog (loadCommands table) (some hash) data = .ok sent ∧
      packetFromBytes sent = .ok (some reply) ∧ reply.reqId = request.reqId) ↔
    request.type = CMD_PING ∨ request.reqId = 0 := by
  have hsent := replyBytes_of_accepted table hash haccepted
  have hreply := packetFromBytes_wire (replyTo hash request)
  constructor
  · rintro ⟨sent, reply, hsent', hreply', hreqId⟩
    rw [hsent] at hsent'
    cases hsent'
    rw [hreply] at hreply'
    cases hreply'
    by_cases hping : request.type = CMD_PING
    · exact Or.inl hping
    · rw [replyTo, if_neg hping] at hreqId
      exact Or.inr hreqId.symm
  · intro h
    refine ⟨_, _, hsent, hreply, ?_⟩
    by_cases hping : request.type = CMD_PING
    · rw [replyTo, if_pos hping]
      rfl
    · rw [replyTo, if_neg hping, h.resolve_left hping]
      rfl

theorem pingBytes_accepted : packetFromBytes pingBytes = .ok (some (pingOf 258)) := rfl

theorem reply_attributable_iff_ping :
    ∃ sent reply, replyBytes noLog (loadCommands nullTable) (some zeroHash) pingBytes = .ok sent ∧
      packetFromBytes sent = .ok (some reply) ∧ reply.reqId = 258 :=
  (reply_attributable_iff nullTable zeroHash pingBytes_accepted).mpr (Or.inl rfl)

/-- A packet of type 1, which has no command of its own, with the id 258. -/
def strayPacket : Packet := ⟨1, 1, 258, zeroHash, 0, none, rfl⟩

theorem stray_reply_not_attributable :
    packetFromBytes (wire strayPacket) = .ok (some strayPacket) ∧
      ∃ sent reply,
        replyBytes noLog (loadCommands nullTable) (some zeroHash) (wire strayPacket) = .ok sent ∧
        packetFromBytes sent = .ok (some reply) ∧ reply.reqId = 0 ∧
        reply.reqId ≠ strayPacket.reqId := by
  refine ⟨packetFromBytes_wire strayPacket, wire (errorPacket zeroHash),
    nullIfEmpty (errorPacket zeroHash), ?_⟩
  exact ⟨replyBytes_wire nullTable zeroHash strayPacket, packetFromBytes_wire _, rfl, by decide⟩

end Cdht.Handshake
