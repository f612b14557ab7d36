/-
  Cdht/UdpClient.lean
  ===================
  **A UDP client, honest servers and the network between them.**

  `udp_client_send_packet` sends a request, waits on its socket and takes the first
  datagram that is there.  The call is cut at `select`, where it can be interrupted:
  `sendRequest` is what happens before it and `awaitResponse` what happens after.

  Around the client is the world of `World`: the receive queue of its socket, the
  requests and the replies in flight, which the network may lose, copy, delay and
  reorder, and servers that answer a request with a reply that carries its `req_id`.
  Each datagram remembers the call that it belongs to.  The client never sees that
  number; it is there to say what a correct answer would be.
-/
import Cdht.Machine
import Cdht.PacketCodec

namespace Cdht.UdpClient

open Cdht.Memory Cdht.Machine Cdht.PacketCodec

/-! ### The function of the source -/

def UDP_CLIENT_BUFFER_SIZE : Nat := 65536

/-- The largest UDP datagram over IPv4; `sendto` fails on a longer one. -/
def UDP_MAX : Nat := 65507

/-- The first half of `udp_client_send_packet`, as the datagram that is sent; `none` if
    the call returns -1 before it waits.  `pointers` says that no argument is NULL,
    `inetPton` and `sendto` that these calls succeed. -/
def sendRequest (pointers : Bool) (requestPacket : Packet) (inetPton sendto : Bool) :
    Exec (Option Bytes) := do
  if !pointers then
    return none
  let (requestBytes, requestLen) ← packetToBytes requestPacket
  if requestLen = 0 then
    return none
  if !inetPton then
    return none
  let datagram ← load requestBytes requestLen
  if sendto && datagram.length ≤ UDP_MAX then
    return some datagram
  else
    return none

/-- How `select` and `recvfrom` end: `select` fails, or times out, or the socket is
    readable and `recvfrom` fails or takes a datagram out of the queue. -/
inductive WaitResult where
  | selectError
  | timeout
  | recvError
  | received (datagram : Bytes)

/-- The second half of `udp_client_send_packet`: the returned code and
    `*response_packet`. -/
def awaitResponse : WaitResult → Exec (Int × Option Packet)
  | .selectError => .ok (-1, none)
  | .timeout => .ok (-1, none)
  | .recvError => .ok (-1, none)
  | .received datagram => do
      let buffer := datagram.take UDP_CLIENT_BUFFER_SIZE
      match ← packetFromBytes buffer with
      | none => return (-1, none)
      | some response => return (0, some response)

/-! ### The world around the client -/

structure Datagram where
  bytes : Bytes
  call : Nat
deriving DecidableEq

/-- A call that has returned.  `source` is the number of the call whose reply was taken
    out of the queue, if any was. -/
structure Returned where
  call : Nat
  request : Packet
  code : Int
  response : Option Packet
  source : Option Nat
deriving DecidableEq

/-- The requests of all calls so far, the call that waits (if any), the receive queue of
    its socket, the datagrams in flight in both directions, and the calls that have
    returned. -/
structure World where
  made : List Packet
  waiting : Option (Nat × Packet)
  queue : List Datagram
  requests : List Datagram
  replies : List Datagram
  log : List Returned
deriving DecidableEq

def World.start : World := ⟨[], none, [], [], [], []⟩

def World.return (world : World) (code : Int) (response : Option Packet) (source : Option Nat) :
    World :=
  match world.waiting with
  | none => world
  | some (call, request) =>
      { world with
        waiting := none
        log := world.log ++ [⟨call, request, code, response, source⟩] }

inductive Event where
  | call (pointers : Bool) (request : Packet) (inetPton sendto : Bool)
  | selectError
  | timeout
  | recvError
  | receive
  | serve (index : Nat) (reply : Packet)
  | loseRequest (index : Nat)
  | copyRequest (index : Nat)
  | loseReply (index : Nat)
  | copyReply (index : Nat)
  | deliver (index : Nat)

/-- One event.  An event that is not possible in a state (a second call while one waits,
    a timeout while a datagram is queued, a datagram that is not there, a reply with
    another id) changes nothing. -/
def worldStep : Step World Event Unit
  | world, .call pointers request inetPton sendto =>
      if world.waiting.isSome then .ok ((), world)
      else do
        let call := world.made.length
        let world := { world with made := world.made ++ [request] }
        match ← sendRequest pointers request inetPton sendto with
        | none =>
            return ((), { world with log := world.log ++ [⟨call, request, -1, none, none⟩] })
        | some bytes =>
            return ((), { world with
              waiting := some (call, request)
              requests := world.requests ++ [⟨bytes, call⟩] })
  | world, .selectError => do
      let (code, response) ← awaitResponse .selectError
      return ((), world.return code response none)
  | world, .timeout =>
      if world.queue = [] then do
        let (code, response) ← awaitResponse .timeout
        return ((), world.return code response none)
      else .ok ((), world)
  | world, .recvError => do
      let (code, response) ← awaitResponse .recvError
      return ((), world.return code response none)
  | world, .receive =>
      match world.waiting, world.queue with
      | some _, datagram :: queue => do
          let (code, response) ← awaitResponse (.received datagram.bytes)
          return ((), { world with queue := queue }.return code response (some datagram.call))
      | _, _ => .ok ((), world)
  | world, .serve index reply =>
      match world.requests[index]? with
      | none => .ok ((), world)
      | some request => do
          let datagram ← encode reply
          match ← packetFromBytes request.bytes with
          | none => return ((), world)
          | some packet =>
              if reply.reqId = packet.reqId ∧ datagram.length ≤ UDP_MAX then
                return ((), { world with
                  requests := lose world.requests index
                  replies := world.replies ++ [⟨datagram, request.call⟩] })
              else return ((), world)
  | world, .loseRequest index =>
      .ok ((), { world with requests := lose world.requests index })
  | world, .copyRequest index =>
      .ok ((), { world with requests := copy world.requests index })
  | world, .loseReply index =>
      .ok ((), { world with replies := lose world.replies index })
  | world, .copyReply index =>
      .ok ((), { world with replies := copy world.replies index })
  | world, .deliver index =>
      match world.replies[index]? with
      | none => .ok ((), world)
      | some datagram =>
          .ok ((), { world with
            replies := lose world.replies index
            queue := world.queue ++ [datagram] })

/-! ### What the two halves of a call do -/

def Sends (pointers : Bool) (request : Packet) (inetPton sendto : Bool) : Prop :=
  pointers = true ∧ inetPton = true ∧ sendto = true ∧ (wire request).length ≤ UDP_MAX

instance (pointers : Bool) (request : Packet) (inetPton sendto : Bool) :
    Decidable (Sends pointers request inetPton sendto) :=
  inferInstanceAs (Decidable (_ ∧ _ ∧ _ ∧ _))

theorem sendRequest_eq (pointers : Bool) (request : Packet) (inetPton sendto : Bool) :
    sendRequest pointers request inetPton sendto =
      .ok (if Sends pointers request inetPton sendto then some (wire request) else none) := by
  have hlength : (wire request).length ≠ 0 := by
    rw [length_wire, HEADER_SIZE]
    omega
  have hload : load (filled (wire request) 0) (wire request).length = .ok (wire request) := by
    rw [load_filled (Nat.le_refl _), List.take_length]
  rw [sendRequest, packetToBytes_eq]
  simp only [ok_bind, pure_eq_ok, if_neg hlength, hload, Sends]
  cases pointers with
  | false => simp
  | true =>
    cases inetPton with
    | false => simp
    | true =>
      cases sendto with
      | false => simp
      | true =>
        by_cases hfits : (wire request).length ≤ UDP_MAX
        · simp only [hfits, decide_true, Bool.and_self, Bool.not_true, Bool.false_eq_true, if_true,
            if_false, and_self]
        · simp only [hfits, decide_false, Bool.and_false, Bool.not_true, Bool.false_eq_true,
            if_false, and_false]

theorem awaitResponse_received {reply : Packet} (h : (wire reply).length ≤ UDP_MAX) :
    awaitResponse (.received (wire reply)) = .ok (0, some (nullIfEmpty reply)) := by
  have hwhole : (wire reply).take UDP_CLIENT_BUFFER_SIZE = wire reply :=
    List.take_of_length_le (Nat.le_trans h (by decide))
  rw [awaitResponse, hwhole, packetFromBytes_wire]
  rfl

theorem awaitResponse_returns (result : WaitResult) :
    ∃ code response, awaitResponse result = .ok (code, response) := by
  cases result with
  | received datagram =>
    rw [awaitResponse]
    rcases packetFromBytes_cases (datagram.take UDP_CLIENT_BUFFER_SIZE) with
      ⟨-, hnone⟩ | ⟨-, packet, hsome, -⟩
    · rw [hnone]
      exact ⟨_, _, rfl⟩
    · rw [hsome]
      exact ⟨_, _, rfl⟩
  | _ => exact ⟨_, _, rfl⟩

/-! ### What an event can do -/

/-- A datagram that an honest server sends for a request in flight. -/
def Answers (requests : List Datagram) (datagram : Datagram) : Prop :=
  ∃ request ∈ requests, ∃ packet reply, packetFromBytes request.bytes = .ok (some packet) ∧
    reply.reqId = packet.reqId ∧ (wire reply).length ≤ UDP_MAX ∧
    datagram = ⟨wire reply, request.call⟩

inductive Effect (world : World) : Event → World → Prop where
  | network (event : Event) (requests replies : List Datagram)
      (hrequests : ∀ datagram ∈ requests, datagram ∈ world.requests)
      (hreplies : ∀ datagram ∈ replies,
        datagram ∈ world.replies ∨ Answers world.requests datagram) :
      Effect world event { world with requests := requests, replies := replies }
  | delivered (index : Nat) (datagram : Datagram)
      (hdatagram : world.replies[index]? = some datagram) :
      Effect world (.deliver index)
        { world with
          replies := lose world.replies index
          queue := world.queue ++ [datagram] }
  | notSent (pointers inetPton sendto : Bool) (request : Packet) (hidle : world.waiting = none) :
      Effect world (.call pointers request inetPton sendto)
        { world with
          made := world.made ++ [request]
          log := world.log ++ [⟨world.made.length, request, -1, none, none⟩] }
  | sent (pointers inetPton sendto : Bool) (request : Packet) (hidle : world.waiting = none)
      (hsends : Sends pointers request inetPton sendto) :
      Effect world (.call pointers request inetPton sendto)
        { world with
          made := world.made ++ [request]
          waiting := some (world.made.length, request)
          requests := world.requests ++ [⟨wire request, world.made.length⟩] }
  | gaveUp (event : Event) (call : Nat) (request : Packet)
      (hwaiting : world.waiting = some (call, request)) :
      Effect world event
        { world with
          waiting := none
          log := world.log ++ [⟨call, request, -1, none, none⟩] }
  | received (call : Nat) (request : Packet) (datagram : Datagram) (queue : List Datagram)
      (code : Int) (response : Option Packet)
      (hwaiting : world.waiting = some (call, request)) (hqueue : world.queue = datagram :: queue)
      (hresponse : awaitResponse (.received datagram.bytes) = .ok (code, response)) :
      Effect world .receive
        { world with
          queue := queue
          waiting := none
          log := world.log ++ [⟨call, request, code, response, some datagram.call⟩] }

theorem Effect.unchanged (world : World) (event : Event) : Effect world event world :=
  .network event world.requests world.replies (fun _ h => h) (fun _ h => .inl h)

theorem effect_return (world : World) (event : Event) :
    Effect world event (world.return (-1) none none) := by
  unfold World.return
  rcases hwaiting : world.waiting with _ | ⟨call, request⟩
  · exact .unchanged world event
  · exact .gaveUp event call request hwaiting

theorem worldStep_call {world : World} {pointers inetPton sendto : Bool} {request : Packet}
    (hidle : world.waiting = none) (hsends : Sends pointers request inetPton sendto) :
    worldStep world (.call pointers request inetPton sendto) =
      .ok ((), { world with
        made := world.made ++ [request]
        waiting := some (world.made.length, request)
        requests := world.requests ++ [⟨wire request, world.made.length⟩] }) := by
  rw [worldStep, hidle, sendRequest_eq, if_pos hsends]
  rfl

/-- A waiting call takes the first datagram of the queue, whichever it is. -/
theorem worldStep_receive {world : World} {call : Nat} {request : Packet} {datagram : Datagram}
    {queue : List Datagram} {code : Int} {response : Option Packet}
    (hwaiting : world.waiting = some (call, request)) (hqueue : world.queue = datagram :: queue)
    (hresponse : awaitResponse (.received datagram.bytes) = .ok (code, response)) :
    worldStep world .receive =
      .ok ((), { world with
        queue := queue
        waiting := none
        log := world.log ++ [⟨call, request, code, response, some datagram.call⟩] }) := by
  simp only [worldStep, hwaiting, hqueue, hresponse, ok_bind, World.return]
  rfl

theorem worldStep_deliver {world : World} {index : Nat} {datagram : Datagram}
    (hdatagram : world.replies[index]? = some datagram) :
    worldStep world (.deliver index) =
      .ok ((), { world with
        replies := lose world.replies index
        queue := world.queue ++ [datagram] }) := by
  rw [worldStep, hdatagram]

/-- The node answers a request that it can decode, or nothing happens. -/
theorem worldStep_serve (world : World) (index : Nat) (reply : Packet) :
    ∃ next, worldStep world (.serve index reply) = .ok ((), next) ∧
      Effect world (.serve index reply) next := by
  rcases hrequest : world.requests[index]? with _ | request
  · refine ⟨world, ?_, .unchanged world _⟩
    rw [worldStep, hrequest]
  · rcases packetFromBytes_cases request.bytes with ⟨-, hnone⟩ | ⟨-, packet, hsome, -⟩
    · refine ⟨world, ?_, .unchanged world _⟩
      simp only [worldStep, hrequest, encode_eq, hnone, ok_bind]
      rfl
    · by_cases hhonest : reply.reqId = packet.reqId ∧ (wire reply).length ≤ UDP_MAX
      · refine ⟨_, ?_, .network _ (lose world.requests index)
          (world.replies ++ [⟨wire reply, request.call⟩]) (fun _ h => mem_of_mem_lose h) ?_⟩
        · simp only [worldStep, hrequest, encode_eq, hsome, ok_bind, if_pos hhonest]
          rfl
        · intro datagram hdatagram
          rcases List.mem_append.mp hdatagram with hold | hnew
          · exact .inl hold
          · right
            refine ⟨request, List.mem_of_getElem? hrequest, packet, reply, hsome, hhonest.1,
              hhonest.2, ?_⟩
            exact List.mem_singleton.mp hnew
      · refine ⟨world, ?_, .unchanged world _⟩
        simp only [worldStep, hrequest, encode_eq, hsome, ok_bind, if_neg hhonest]
        rfl

/-- **Every event returns, and does one of these things.** -/
theorem worldStep_effect (world : World) (event : Event) :
    ∃ next, worldStep world event = .ok ((), next) ∧ Effect world event next := by
  cases event with
  | call pointers request inetPton sendto =>
    rcases hwaiting : world.waiting with _ | waiting
    · by_cases hsends : Sends pointers request inetPton sendto
      · exact ⟨_, worldStep_call hwaiting hsends,
          .sent pointers inetPton sendto request hwaiting hsends⟩
      · refine ⟨_, ?_, .notSent pointers inetPton sendto request hwaiting⟩
        rw [worldStep, hwaiting, sendRequest_eq, if_neg hsends]
        rfl
    · refine ⟨world, ?_, .unchanged world _⟩
      rw [worldStep, hwaiting]
      rfl
  | selectError => exact ⟨_, rfl, effect_return world _⟩
  | timeout =>
    by_cases hqueue : world.queue = []
    · refine ⟨_, ?_, effect_return world _⟩
      rw [worldStep, if_pos hqueue]
      rfl
    · exact ⟨world, if_neg hqueue, .unchanged world _⟩
  | recvError => exact ⟨_, rfl, effect_return world _⟩
  | receive =>
    rcases hwaiting : world.waiting with _ | ⟨call, request⟩
    · refine ⟨world, ?_, .unchanged world _⟩
      rw [worldStep, hwaiting]
    · rcases hqueue : world.queue with _ | ⟨datagram, queue⟩
      · refine ⟨world, ?_, .unchanged world _⟩
        rw [worldStep, hwaiting, hqueue]
      · obtain ⟨code, response, hresponse⟩ := awaitResponse_returns (.received datagram.bytes)
        exact ⟨_, worldStep_receive hwaiting hqueue hresponse,
          .received call request datagram queue code response hwaiting hqueue hresponse⟩
  | serve index reply => exact worldStep_serve world index reply
  | loseRequest index =>
    exact ⟨_, rfl, .network _ _ _ (fun _ h => mem_of_mem_lose h) (fun _ h => .inl h)⟩
  | copyRequest index =>
    exact ⟨_, rfl, .network _ _ _ (fun _ h => mem_of_mem_copy h) (fun _ h => .inl h)⟩
  | loseReply index =>
    exact ⟨_, rfl, .network _ _ _ (fun _ h => h) (fun _ h => .inl (mem_of_mem_lose h))⟩
  | copyReply index =>
    exact ⟨_, rfl, .network _ _ _ (fun _ h => h) (fun _ h => .inl (mem_of_mem_copy h))⟩
  | deliver index =>
    rcases hdatagram : world.replies[index]? with _ | datagram
    · refine ⟨world, ?_, .unchanged world _⟩
      rw [worldStep, hdatagram]
    · exact ⟨_, worldStep_deliver hdatagram, .delivered index datagram hdatagram⟩

theorem effect_of_worldStep {world next : World} {event : Event} {output : Unit}
    (h : worldStep world event = .ok (output, next)) : Effect world event next := by
  obtain ⟨next', hstep, heffect⟩ := worldStep_effect world event
  rw [h] at hstep
  cases hstep
  exact heffect

end Cdht.UdpClient
