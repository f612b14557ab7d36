/-
  Cdht/UdpCorrelation.lean
  ========================
  **When a response answers the request it is returned for.**

  `udp_client_send_packet` does not look at the `req_id` of the datagram it takes, so
  a call returns the reply to an earlier one whenever such a reply is first in the
  queue.  That happens in two ways: the queue is not empty when the call is made, or
  the first datagram delivered to the waiting call answers another request.  Along
  every run in which neither happens, each response answers its own request; and
  after a step at which one of them happens, the next `recvfrom` returns the wrong
  packet.
-/
import Cdht.UdpClient

namespace Cdht.UdpClient

open Cdht.Memory Cdht.Machine Cdht.PacketCodec

/-! ### The property and the condition -/

/-- Every call that has returned 0 has stored the reply to its own request. -/
def Correlated (world : World) : Prop :=
  ∀ entry ∈ world.log, entry.code = 0 → entry.source = some entry.call ∧
    ∃ response, entry.response = some response ∧ response.reqId = entry.request.reqId

/-- A call is made with an empty receive queue, and the first datagram delivered to a
    waiting call answers its request. -/
def KeepsCorrelated (world : World) : Event → Prop
  | .call pointers request inetPton sendto =>
      world.waiting = none → Sends pointers request inetPton sendto → world.queue = []
  | .deliver index =>
      ∀ waiting ∈ world.waiting, world.queue = [] →
        ∀ datagram ∈ world.replies[index]?, datagram.call = waiting.1
  | _ => True

/-! ### Datagrams belong to calls -/

/-- The bytes are those of a packet with the id of the request it answers. -/
def IsReply (made : List Packet) (datagram : Datagram) : Prop :=
  ∃ request reply, made[datagram.call]? = some request ∧ reply.reqId = request.reqId ∧
    (wire reply).length ≤ UDP_MAX ∧ datagram.bytes = wire reply

/-- All datagrams stem from the calls that were made. -/
structure Sound (world : World) : Prop where
  waiting : ∀ call request, world.waiting = some (call, request) →
    world.made[call]? = some request
  requests : ∀ datagram ∈ world.requests, ∃ request, world.made[datagram.call]? = some request ∧
    datagram.bytes = wire request
  replies : ∀ datagram ∈ world.replies, IsReply world.made datagram
  queue : ∀ datagram ∈ world.queue, IsReply world.made datagram

theorem sound_start : Sound World.start := by
  constructor
  · intro call request h
    cases h
  · intro datagram h
    cases h
  · intro datagram h
    cases h
  · intro datagram h
    cases h

theorem getElem?_append_of_some {made : List Packet} {call : Nat} {request : Packet}
    (h : made[call]? = some request) (more : List Packet) :
    (made ++ more)[call]? = some request := by
  rw [List.getElem?_append_left (List.getElem?_eq_some_iff.mp h).1, h]

theorem IsReply.append {made : List Packet} {datagram : Datagram} (h : IsReply made datagram)
    (more : List Packet) : IsReply (made ++ more) datagram := by
  obtain ⟨request, reply, hmade, hspec⟩ := h
  exact ⟨request, reply, getElem?_append_of_some hmade more, hspec⟩

@[simp] theorem nullIfEmpty_reqId (packet : Packet) : (nullIfEmpty packet).reqId = packet.reqId := by
  unfold nullIfEmpty
  split
  · rfl
  · rfl

theorem isReply_of_answers {world : World} (h : Sound world) {datagram : Datagram}
    (hanswers : Answers world.requests datagram) : IsReply world.made datagram := by
  obtain ⟨request, hrequest, packet, reply, hpacket, hreqId, hlength, rfl⟩ := hanswers
  obtain ⟨made, hmade, hbytes⟩ := h.requests request hrequest
  rw [hbytes, packetFromBytes_wire] at hpacket
  cases hpacket
  rw [nullIfEmpty_reqId] at hreqId
  exact ⟨made, reply, hmade, hreqId, hlength, rfl⟩

theorem Sound.append {world : World} (h : Sound world) (request : Packet) :
    Sound { world with made := world.made ++ [request] } := by
  refine ⟨?_, ?_, ?_, ?_⟩
  · intro call waiting hwaiting
    exact getElem?_append_of_some (h.waiting call waiting hwaiting) [request]
  · intro datagram hdatagram
    obtain ⟨sent, hmade, hbytes⟩ := h.requests datagram hdatagram
    exact ⟨sent, getElem?_append_of_some hmade [request], hbytes⟩
  · intro datagram hdatagram
    exact (h.replies datagram hdatagram).append [request]
  · intro datagram hdatagram
    exact (h.queue datagram hdatagram).append [request]

/-- **Every event keeps datagrams sound.** -/
theorem sound_step {world next : World} {event : Event} (h : Sound world)
    (heffect : Effect world event next) : Sound next := by
  cases heffect with
  | network _ requests replies hrequests hreplies =>
    refine ⟨h.waiting, ?_, ?_, h.queue⟩
    · intro datagram hdatagram
      exact h.requests datagram (hrequests datagram hdatagram)
    · intro datagram hdatagram
      rcases hreplies datagram hdatagram with hold | hnew
      · exact h.replies datagram hold
      · exact isReply_of_answers h hnew
  | delivered index datagram hdatagram =>
    refine ⟨h.waiting, h.requests, ?_, ?_⟩
    · intro other hother
      exact h.replies other (mem_of_mem_lose hother)
    · intro other hother
      rcases List.mem_append.mp hother with hold | hnew
      · exact h.queue other hold
      · rw [List.mem_singleton.mp hnew]
        exact h.replies datagram (List.mem_of_getElem? hdatagram)
  | notSent pointers inetPton sendto request hidle =>
    have hmore := h.append request
    exact ⟨hmore.waiting, hmore.requests, hmore.replies, hmore.queue⟩
  | sent pointers inetPton sendto request hidle hsends =>
    have hmore := h.append request
    have hnew : (world.made ++ [request])[world.made.length]? = some request :=
      List.getElem?_concat_length
    refine ⟨?_, ?_, hmore.replies, hmore.queue⟩
    · intro call waiting hwaiting
      cases hwaiting
      exact hnew
    · intro datagram hdatagram
      rcases List.mem_append.mp hdatagram with hold | hlast
      · exact hmore.requests datagram hold
      · rw [List.mem_singleton.mp hlast]
        exact ⟨request, hnew, rfl⟩
  | gaveUp _ call request hwaiting =>
    refine ⟨?_, h.requests, h.replies, h.queue⟩
    intro call request hnone
    cases hnone
  | received call request datagram queue code response hwaiting hqueue hresponse =>
    refine ⟨?_, h.requests, h.replies, ?_⟩
    · intro call request hnone
      cases hnone
    · intro other hother
      apply h.queue
      rw [hqueue]
      exact List.mem_cons_of_mem datagram hother

/-! ### Responses answer their requests -/

/-- The datagrams are sound, no call has returned a wrong response, and none is about
    to: the first datagram of the queue answers the waiting call. -/
structure Aligned (world : World) : Prop where
  sound : Sound world
  head : ∀ call request datagram, world.waiting = some (call, request) →
    world.queue.head? = some datagram → datagram.call = call
  correlated : Correlated world

theorem aligned_start : Aligned World.start := by
  refine ⟨sound_start, ?_, ?_⟩
  · intro call request datagram h
    cases h
  · intro entry h
    cases h

theorem correlated_append_failed {world : World} (h : Correlated world) (call : Nat)
    (request : Packet) : ∀ entry ∈ world.log ++ [⟨call, request, -1, none, none⟩],
      entry.code = 0 → entry.source = some entry.call ∧
        ∃ response, entry.response = some response ∧ response.reqId = entry.request.reqId := by
  intro entry hentry hcode
  rcases List.mem_append.mp hentry with hold | hnew
  · exact h entry hold hcode
  · rw [List.mem_singleton.mp hnew] at hcode
    cases hcode

/-- **An event that meets the condition keeps responses aligned.** -/
theorem aligned_step {world next : World} {event : Event} (h : Aligned world)
    (hkeeps : KeepsCorrelated world event) (heffect : Effect world event next) : Aligned next := by
  have hsound := sound_step h.sound heffect
  cases heffect with
  | network _ requests replies hrequests hreplies => exact ⟨hsound, h.head, h.correlated⟩
  | delivered index datagram hdatagram =>
    refine ⟨hsound, ?_, h.correlated⟩
    intro call request first hwaiting hfirst
    rcases hqueue : world.queue with _ | ⟨old, queue⟩
    · -- the delivered datagram comes first, and the condition is about it
      simp only [hqueue, List.nil_append, List.head?_cons, Option.some.injEq] at hfirst
      rw [← hfirst]
      exact hkeeps (call, request) hwaiting hqueue datagram hdatagram
    · simp only [hqueue, List.cons_append, List.head?_cons, Option.some.injEq] at hfirst
      apply h.head call request first hwaiting
      rw [hqueue, ← hfirst, List.head?_cons]
  | notSent pointers inetPton sendto request hidle =>
    exact ⟨hsound, h.head, correlated_append_failed h.correlated _ request⟩
  | sent pointers inetPton sendto request hidle hsends =>
    refine ⟨hsound, ?_, h.correlated⟩
    intro call waiting datagram _ hfirst
    have hempty : world.queue = [] := hkeeps hidle hsends
    simp only [hempty, List.head?_nil, reduceCtorEq] at hfirst
  | gaveUp _ call request hwaiting =>
    refine ⟨hsound, ?_, correlated_append_failed h.correlated call request⟩
    intro call request datagram hnone
    cases hnone
  | received call request datagram queue code response hwaiting hqueue hresponse =>
    refine ⟨hsound, ?_, ?_⟩
    · intro call request datagram hnone
      cases hnone
    · intro entry hentry hcode
      rcases List.mem_append.mp hentry with hold | hnew
      · exact h.correlated entry hold hcode
      · rw [List.mem_singleton.mp hnew]
        have hfirst : datagram.call = call := by
          apply h.head call request datagram hwaiting
          rw [hqueue, List.head?_cons]
        obtain ⟨made, reply, hmade, hreqId, hlength, hbytes⟩ :=
          h.sound.queue datagram (by rw [hqueue]; exact List.mem_cons_self)
        rw [hbytes, awaitResponse_received hlength] at hresponse
        cases hresponse
        rw [hfirst, h.sound.waiting call request hwaiting] at hmade
        cases hmade
        refine ⟨congrArg some hfirst, nullIfEmpty reply, rfl, ?_⟩
        rw [nullIfEmpty_reqId, hreqId]

/-! ### The condition is needed -/

def WrongResponse (entry : Returned) : Prop :=
  entry.code = 0 ∧ ∃ response, entry.response = some response ∧
    response.reqId ≠ entry.request.reqId

/-- **A foreign datagram at the head of the queue is returned.**  If the ids of the
    requests are distinct, the waiting call returns 0 with another id. -/
theorem foreign_head_returned {world : World} (h : Sound world) {call : Nat} {request : Packet}
    {datagram : Datagram} {queue : List Datagram} (hwaiting : world.waiting = some (call, request))
    (hqueue : world.queue = datagram :: queue) (hforeign : datagram.call ≠ call)
    (hdistinct : (world.made.map Packet.reqId).Nodup) :
    ∃ last, worldStep world .receive = .ok ((), last) ∧ ∃ entry ∈ last.log, WrongResponse entry := by
  obtain ⟨other, reply, hother, hreqId, hlength, hbytes⟩ :=
    h.queue datagram (by rw [hqueue]; exact List.mem_cons_self)
  have hresponse : awaitResponse (.received datagram.bytes) = .ok (0, some (nullIfEmpty reply)) := by
    rw [hbytes, awaitResponse_received hlength]
  refine ⟨_, worldStep_receive hwaiting hqueue hresponse, _,
    List.mem_append_right _ List.mem_cons_self, rfl, nullIfEmpty reply, rfl, ?_⟩
  rw [nullIfEmpty_reqId, hreqId]
  intro hequal
  have hsame : (world.made.map Packet.reqId)[datagram.call]? =
      (world.made.map Packet.reqId)[call]? := by
    rw [List.getElem?_map, List.getElem?_map, hother, h.waiting call request hwaiting,
      Option.map_some, Option.map_some, hequal]
  have hbound : datagram.call < (world.made.map Packet.reqId).length := by
    rw [List.length_map]
    exact (List.getElem?_eq_some_iff.mp hother).1
  exact hforeign ((List.getElem?_inj hbound hdistinct).mp hsame)

theorem wrong_response_of_violation {world next : World} {event : Event} (h : Sound world)
    (hviolates : ¬ KeepsCorrelated world event) (hstep : worldStep world event = .ok ((), next))
    (hdistinct : (next.made.map Packet.reqId).Nodup) :
    ∃ last, worldStep next .receive = .ok ((), last) ∧ ∃ entry ∈ last.log, WrongResponse entry := by
  have hsound : Sound next := sound_step h (effect_of_worldStep hstep)
  unfold KeepsCorrelated at hviolates
  split at hviolates
  · rename_i pointers request inetPton sendto
    simp only [not_forall] at hviolates
    obtain ⟨hidle, hsends, hqueue⟩ := hviolates
    rw [worldStep_call hidle hsends] at hstep
    cases hstep
    obtain ⟨datagram, queue, hqueue⟩ := List.exists_cons_of_ne_nil hqueue
    refine foreign_head_returned hsound rfl hqueue ?_ hdistinct
    -- a queued datagram answers a call that was made before
    obtain ⟨other, reply, hother, -⟩ := h.queue datagram (by rw [hqueue]; exact List.mem_cons_self)
    exact Nat.ne_of_lt (List.getElem?_eq_some_iff.mp hother).1
  · simp only [not_forall] at hviolates
    obtain ⟨⟨call, request⟩, hwaiting, hqueue, datagram, hdatagram, hforeign⟩ := hviolates
    rw [worldStep_deliver hdatagram] at hstep
    cases hstep
    have hfirst : world.queue ++ [datagram] = [datagram] := by
      rw [hqueue, List.nil_append]
    exact foreign_head_returned hsound hwaiting hfirst hforeign hdistinct
  · exact absurd trivial hviolates

/-! ### Whole runs -/

theorem sound_run {events : List Event} {outputs : List Unit} {world : World}
    (hrun : run worldStep World.start events = .ok (outputs, world)) : Sound world := by
  refine run_invariant worldStep Sound ?_ events World.start outputs world sound_start hrun
  intro world event output next h hstep
  exact sound_step h (effect_of_worldStep hstep)

/-- **Responses answer their requests, along the runs in which no foreign datagram comes
    first.**  For every sequence of calls, answers, losses, copies, deliveries and
    timeouts in which each call is made with an empty receive queue and the first
    datagram delivered to a waiting call answers its request: the run goes through,
    and in each of its states every call that has returned 0 has stored the reply to
    its own request.  And whatever run leads to an event that is not so, if the ids of
    the requests are distinct, the `recvfrom` behind it returns a wrong response. -/
theorem responses_correlated_when (events : List Event) :
    (StepsMeet worldStep KeepsCorrelated World.start events →
      (∃ outputs final, run worldStep World.start events = .ok (outputs, final)) ∧
      Along worldStep Correlated World.start events) ∧
    (∀ outputs world event next,
      run worldStep World.start events = .ok (outputs, world) →
      ¬ KeepsCorrelated world event → worldStep world event = .ok ((), next) →
      (next.made.map Packet.reqId).Nodup →
      ∃ last, worldStep next .receive = .ok ((), last) ∧
        ∃ entry ∈ last.log, WrongResponse entry) := by
  constructor
  · intro hmeet
    constructor
    · refine run_total worldStep ?_ events World.start
      intro world event
      obtain ⟨next, hstep, -⟩ := worldStep_effect world event
      exact ⟨(), next, hstep⟩
    · apply Along.mono worldStep (fun world (h : Aligned world) => h.correlated)
      refine along_of_meet worldStep Aligned KeepsCorrelated ?_ events World.start aligned_start
        hmeet
      intro world event output next h hkeeps hstep
      exact aligned_step h hkeeps (effect_of_worldStep hstep)
  · intro outputs world event next hrun hviolates hstep hdistinct
    exact wrong_response_of_violation (sound_run hrun) hviolates hstep hdistinct

def ping (reqId : UInt16) : Packet :=
  ⟨1, 5, reqId, ⟨List.replicate 20 0, length_zeros⟩, 0, none, length_noPayload⟩

def callPing (reqId : UInt16) : Event := .call true (ping reqId) true true

/-- Two calls, each answered in time; the request of the second is served twice, and the
    second copy of its reply is still on the way at the end. -/
def promptReplies : List Event :=
  [callPing 1, .serve 0 (ping 1), .deliver 0, .receive,
    callPing 2, .copyRequest 0, .serve 0 (ping 2), .serve 0 (ping 2), .deliver 1, .receive]

theorem responses_correlated_promptReplies :
    StepsMeet worldStep KeepsCorrelated World.start promptReplies ∧
      Along worldStep Correlated World.start promptReplies ∧
      ∃ outputs final, run worldStep World.start promptReplies = .ok (outputs, final) ∧
        final.log = [⟨0, ping 1, 0, some (ping 1), some 0⟩, ⟨1, ping 2, 0, some (ping 2), some 1⟩] ∧
        final.replies.length = 1 := by
  have hmeet : StepsMeet worldStep KeepsCorrelated World.start promptReplies := by
    apply (stepsMeet_cons worldStep rfl).mpr
    refine ⟨fun _ _ => rfl, ?_⟩
    apply (stepsMeet_cons worldStep rfl).mpr
    refine ⟨trivial, ?_⟩
    apply (stepsMeet_cons worldStep rfl).mpr
    refine ⟨?_, ?_⟩
    · intro waiting hwaiting _ datagram hdatagram
      cases hwaiting
      cases hdatagram
      rfl
    apply (stepsMeet_cons worldStep rfl).mpr
    refine ⟨trivial, ?_⟩
    apply (stepsMeet_cons worldStep rfl).mpr
    refine ⟨fun _ _ => rfl, ?_⟩
    apply (stepsMeet_cons worldStep rfl).mpr
    refine ⟨trivial, ?_⟩
    apply (stepsMeet_cons worldStep rfl).mpr
    refine ⟨trivial, ?_⟩
    apply (stepsMeet_cons worldStep rfl).mpr
    refine ⟨trivial, ?_⟩
    apply (stepsMeet_cons worldStep rfl).mpr
    refine ⟨?_, ?_⟩
    · intro waiting hwaiting _ datagram hdatagram
      cases hwaiting
      cases hdatagram
      rfl
    exact (stepsMeet_cons worldStep rfl).mpr ⟨trivial, trivial⟩
  refine ⟨hmeet, ((responses_correlated_when promptReplies).1 hmeet).2, ?_⟩
  exact ⟨_, _, rfl, by decide, by decide⟩

def lateReply : List Event :=
  [callPing 1, .timeout, .serve 0 (ping 1), .deliver 0, callPing 2, .receive]

theorem late_reply_returned :
    ∃ outputs final, run worldStep World.start lateReply = .ok (outputs, final) ∧
      (final.made.map Packet.reqId).Nodup ∧
      ⟨1, ping 2, 0, some (ping 1), some 0⟩ ∈ final.log ∧ ¬ Correlated final := by
  refine ⟨_, _, rfl, by decide, by decide, ?_⟩
  intro h
  obtain ⟨-, response, hresponse, hreqId⟩ :=
    h ⟨1, ping 2, 0, some (ping 1), some 0⟩ (by decide) rfl
  cases hresponse
  exact absurd hreqId (by decide)

end Cdht.UdpClient
