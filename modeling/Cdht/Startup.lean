/-
  Cdht/Startup.lean
  =================
  **The handshake loop of `main`** (`src/main.c`).

  At start-up the node pings the configured seeds one after the other and stops at the
  first that answers with a pong.  What becomes of the ping of one seed is an
  argument: the request cannot be sent, nothing comes back, or some datagram does,
  which need not be an answer of a node at all.  The test of the answer,
  `handshakeTest`, compares four bytes of the payload whatever its length is.

  `global_node` is set by then, and a socket can be made.
-/
import Cdht.Handshake
import Cdht.Settings
import Cdht.UdpClient

namespace Cdht.Startup

open Cdht.Memory Cdht.Strings Cdht.Format Cdht.PacketCodec Cdht.RequestHandler Cdht.Handshake
open Cdht.UdpClient Cdht.Settings

/-! ### The functions of the source -/

/-- What becomes of the ping of one seed. -/
structure Attempt where
  inetPton : Bool
  sendto : Bool
  wait : WaitResult

/-- `udp_client_send_packet` with no NULL among its arguments: the returned code and
    `*response_packet`, which was NULL before. -/
def udpClientSendPacket (request : Packet) (attempt : Attempt) : Exec (Int × Option Packet) := do
  match ← sendRequest true request attempt.inetPton attempt.sendto with
  | none => return (-1, none)
  | some _ => awaitResponse attempt.wait

/-- The handshake loop: the seeds contacted, in order, and the one the handshake is
    made with. -/
def handshakeLoop (globalNode : GlobalNode) :
    List (NodeAddr × Attempt) → Exec (List NodeAddr × Option NodeAddr)
  | [] => .ok ([], none)
  | (seed, attempt) :: seeds => do
      let req ← packetNew globalNode 1 CMD_PING 1 none 0
      let (_, res) ← udpClientSendPacket req attempt
      if ← handshakeTest res then
        return ([seed], some seed)  -- label_exit
      else
        let (contacted, live) ← handshakeLoop globalNode seeds
        return (seed :: contacted, live)

/-! ### Answers -/

/-- The packet that a seed answers with, if any arrives and can be decoded. -/
def answer (attempt : Attempt) : Option Packet :=
  if attempt.inetPton && attempt.sendto then
    match awaitResponse attempt.wait with
    | .ok (_, response) => response
    | .error _ => none
  else none

/-- The answer has a payload that starts with `PONG`. -/
def isLive (attempt : Attempt) : Bool :=
  match answer attempt with
  | some packet => (packet.payload.getD []).take 4 = ascii "PONG"
  | none => false

/-- The answer is a packet with fewer than four bytes of payload. -/
def AnswersShort (attempt : Attempt) : Prop := ∃ packet ∈ answer attempt, packet.payloadLen < 4

def pingPacket (hash : CharArray 20) : Packet := ⟨1, CMD_PING, 1, hash, 0, some [], length_emptyPayload⟩

theorem udpClientSendPacket_ping (hash : CharArray 20) (attempt : Attempt) :
    ∃ code, udpClientSendPacket (pingPacket hash) attempt = .ok (code, answer attempt) := by
  have hlength : (wire (pingPacket hash)).length ≤ UDP_MAX := by
    rw [length_wire]
    show HEADER_SIZE + (0 : UInt16).toNat ≤ UDP_MAX
    decide
  unfold udpClientSendPacket answer
  rw [sendRequest_eq, ok_bind]
  by_cases hsends : Sends true (pingPacket hash) attempt.inetPton attempt.sendto
  · obtain ⟨code, response, hresponse⟩ := awaitResponse_returns attempt.wait
    obtain ⟨-, hpton, hsendto, -⟩ := id hsends
    rw [if_pos hsends, if_pos (by rw [hpton, hsendto]; rfl)]
    simp only [hresponse]
    exact ⟨code, rfl⟩
  · have hnot : ¬ (attempt.inetPton && attempt.sendto) = true := by
      rw [Bool.and_eq_true]
      rintro ⟨hpton, hsendto⟩
      exact hsends ⟨rfl, hpton, hsendto, hlength⟩
    rw [if_neg hsends, if_neg hnot]
    exact ⟨-1, rfl⟩

/-- On an answer with four bytes of payload or more, and on none, the test tells
    whether the seed is live. -/
theorem handshakeTest_of_not_short {attempt : Attempt} (h : ¬ AnswersShort attempt) :
    handshakeTest (answer attempt) = .ok (isLive attempt) := by
  unfold isLive
  rcases hanswer : answer attempt with _ | packet
  · rfl
  · have hlong : ¬ packet.payloadLen < 4 := fun hshort => h ⟨packet, hanswer, hshort⟩
    have hlength := packet.length_payload
    have hfour : 4 ≤ packet.payloadLen.toNat := by
      rw [UInt16.lt_iff_toNat_lt] at hlong
      exact Nat.le_of_not_lt hlong
    rcases hpayload : packet.payload with _ | payload
    · rw [hpayload] at hlength
      exact absurd hfour (by rw [← hlength]; decide)
    · rw [hpayload] at hlength
      have hroom : 0 + 4 ≤ payload.length := by
        rw [Nat.zero_add]
        exact hlength ▸ hfour
      simp only [handshakeTest, hpayload, readAt_eq_ok hroom, ok_bind, pure_eq_ok, Option.getD_some,
        Except.ok.injEq, decide_eq_decide]
      rw [memcmp_eq_zero_iff, eq_comm]
      · rfl
      · rw [length_slice hroom]
        rfl

/-- On a shorter answer it reads a byte that is not there. -/
theorem handshakeTest_of_short {attempt : Attempt} (h : AnswersShort attempt) :
    ∃ fault, handshakeTest (answer attempt) = .error fault := by
  obtain ⟨packet, hanswer, hshort⟩ := h
  rw [Option.mem_def.mp hanswer, handshakeTest]
  have hlength := packet.length_payload
  rcases hpayload : packet.payload with _ | payload
  · exact ⟨.nullPointer, rfl⟩
  · rw [hpayload] at hlength
    have hout : ¬ 0 + 4 ≤ payload.length := by
      have hshort : packet.payloadLen.toNat < 4 := UInt16.lt_iff_toNat_lt.mp hshort
      rw [Option.getD_some] at hlength
      omega
    exact ⟨.outOfBounds (max 0 payload.length), by simp only [readAt, if_neg hout, error_bind]⟩

/-! ### The loop -/

/-- The seeds up to the first live one, with it; all of them if none is live. -/
def upToFirstLive (seeds : List (NodeAddr × Attempt)) : List NodeAddr :=
  (seeds.takeWhile fun entry => !isLive entry.2).map Prod.fst ++
    ((seeds.find? fun entry => isLive entry.2).map Prod.fst).toList

def firstLive (seeds : List (NodeAddr × Attempt)) : Option NodeAddr :=
  (seeds.find? fun entry => isLive entry.2).map Prod.fst

theorem handshakeLoop_cons (hash : CharArray 20) (seed : NodeAddr) (attempt : Attempt)
    (seeds : List (NodeAddr × Attempt)) :
    handshakeLoop (some hash) ((seed, attempt) :: seeds) =
      handshakeTest (answer attempt) >>= fun live =>
        if live then .ok ([seed], some seed)
        else handshakeLoop (some hash) seeds >>= fun rest => .ok (seed :: rest.1, rest.2) := by
  have hreq : packetNew (some hash) 1 CMD_PING 1 none 0 = .ok (pingPacket hash) := rfl
  obtain ⟨code, hanswer⟩ := udpClientSendPacket_ping hash attempt
  rw [handshakeLoop, hreq, ok_bind]
  simp only [hanswer, ok_bind, pure_eq_ok]

theorem not_short_of_live {attempt : Attempt} (h : isLive attempt = true) :
    ¬ AnswersShort attempt := by
  rintro ⟨packet, hanswer, hshort⟩
  simp only [isLive, Option.mem_def.mp hanswer, decide_eq_true_eq] at h
  have hfour := congrArg List.length h
  have hpong : (ascii "PONG").length = 4 := rfl
  rw [List.length_take, packet.length_payload, hpong] at hfour
  have hshort : packet.payloadLen.toNat < 4 := UInt16.lt_iff_toNat_lt.mp hshort
  omega

section FirstEntry

variable {seed : NodeAddr} {attempt : Attempt} (seeds : List (NodeAddr × Attempt))

theorem takeWhile_of_live (h : isLive attempt = true) :
    ((seed, attempt) :: seeds).takeWhile (fun entry => !isLive entry.2) = [] := by
  simp only [List.takeWhile_cons, h, Bool.not_true, Bool.false_eq_true, if_false]

theorem takeWhile_of_not_live (h : isLive attempt = false) :
    ((seed, attempt) :: seeds).takeWhile (fun entry => !isLive entry.2) =
      (seed, attempt) :: seeds.takeWhile fun entry => !isLive entry.2 := by
  simp only [List.takeWhile_cons, h, Bool.not_false, if_true]

theorem spec_of_live (h : isLive attempt = true) :
    upToFirstLive ((seed, attempt) :: seeds) = [seed] ∧
      firstLive ((seed, attempt) :: seeds) = some seed := by
  have hfind : ((seed, attempt) :: seeds).find? (fun entry => isLive entry.2) =
      some (seed, attempt) := List.find?_cons_of_pos h
  rw [upToFirstLive, firstLive, takeWhile_of_live seeds h, hfind]
  exact ⟨rfl, rfl⟩

theorem spec_of_not_live (h : isLive attempt = false) :
    upToFirstLive ((seed, attempt) :: seeds) = seed :: upToFirstLive seeds ∧
      firstLive ((seed, attempt) :: seeds) = firstLive seeds := by
  have hfind : ((seed, attempt) :: seeds).find? (fun entry => isLive entry.2) =
      seeds.find? fun entry => isLive entry.2 :=
    List.find?_cons_of_neg (by rw [h]; exact Bool.false_ne_true)
  rw [upToFirstLive, firstLive, takeWhile_of_not_live seeds h, hfind]
  exact ⟨rfl, rfl⟩

end FirstEntry

theorem handshakeLoop_of_not_short {hash : CharArray 20} {seeds : List (NodeAddr × Attempt)}
    (h : ∀ entry ∈ seeds.takeWhile fun entry => !isLive entry.2, ¬ AnswersShort entry.2) :
    handshakeLoop (some hash) seeds = .ok (upToFirstLive seeds, firstLive seeds) := by
  induction seeds with
  | nil => rfl
  | cons entry seeds ih =>
    obtain ⟨seed, attempt⟩ := entry
    rw [handshakeLoop_cons]
    by_cases hlive : isLive attempt = true
    · obtain ⟨hcontacted, hfirst⟩ := @spec_of_live seed attempt seeds hlive
      rw [handshakeTest_of_not_short (not_short_of_live hlive), hlive, hcontacted, hfirst]
      rfl
    · have hlive : isLive attempt = false := eq_false_of_ne_true hlive
      obtain ⟨hcontacted, hfirst⟩ := @spec_of_not_live seed attempt seeds hlive
      rw [takeWhile_of_not_live seeds hlive] at h
      have hrest := ih fun entry hentry => h entry (List.mem_cons_of_mem _ hentry)
      rw [handshakeTest_of_not_short (h (seed, attempt) List.mem_cons_self), hlive, hcontacted,
        hfirst, ok_bind, hrest]
      rfl

theorem handshakeLoop_of_short {hash : CharArray 20} {seeds : List (NodeAddr × Attempt)}
    (h : ∃ entry ∈ seeds.takeWhile fun entry => !isLive entry.2, AnswersShort entry.2) :
    ∃ fault, handshakeLoop (some hash) seeds = .error fault := by
  induction seeds with
  | nil =>
    obtain ⟨entry, hentry, -⟩ := h
    cases hentry
  | cons entry seeds ih =>
    obtain ⟨seed, attempt⟩ := entry
    obtain ⟨entry, hentry, hshort⟩ := h
    rw [handshakeLoop_cons]
    by_cases hlive : isLive attempt = true
    · rw [takeWhile_of_live seeds hlive] at hentry
      cases hentry
    have hlive : isLive attempt = false := eq_false_of_ne_true hlive
    by_cases hfirst : AnswersShort attempt
    · obtain ⟨fault, hfault⟩ := handshakeTest_of_short hfirst
      exact ⟨fault, by rw [hfault, error_bind]⟩
    · rw [takeWhile_of_not_live seeds hlive] at hentry
      rcases List.mem_cons.mp hentry with rfl | hentry
      · exact absurd hshort hfirst
      · obtain ⟨fault, hfault⟩ := ih ⟨entry, hentry, hshort⟩
        rw [handshakeTest_of_not_short hfirst, hlive, ok_bind, hfault]
        exact ⟨fault, rfl⟩

/-- **The handshake picks the first live seed, exactly if no earlier one answers with
    a short payload.**  For every list of seeds and everything that can become of
    their pings: the loop contacts the seeds in order up to the first whose answer
    starts with `PONG`, or all of them if there is none, and reads only payload bytes
    that are there, if and only if no seed before that one answers with a packet of
    fewer than four payload bytes. -/
theorem handshake_picks_first_live_iff (hash : CharArray 20) (seeds : List (NodeAddr × Attempt)) :
    handshakeLoop (some hash) seeds = .ok (upToFirstLive seeds, firstLive seeds) ↔
      ∀ entry ∈ seeds.takeWhile fun entry => !isLive entry.2, ¬ AnswersShort entry.2 := by
  constructor
  · intro hrun entry hentry hshort
    obtain ⟨fault, hfault⟩ := @handshakeLoop_of_short hash seeds ⟨entry, hentry, hshort⟩
    rw [hrun] at hfault
    cases hfault
  · exact handshakeLoop_of_not_short

theorem length_sampleHost : (List.replicate 64 (0 : UInt8)).length = 64 := List.length_replicate

def sampleSeed : NodeAddr := ⟨⟨List.replicate 64 0, length_sampleHost⟩, 1998⟩

/-- An answer that is an error packet without payload, as a node sends it. -/
def errorAnswer : Attempt := ⟨true, true, .received (wire (errorPacket zeroHash))⟩

theorem error_answer_breaks_handshake :
    packetFromBytes (wire (errorPacket zeroHash)) = .ok (some (nullIfEmpty (errorPacket zeroHash))) ∧
      handshakeLoop (some zeroHash) [(sampleSeed, errorAnswer)] = .error .nullPointer ∧
      handshakeLoop (some zeroHash) [(sampleSeed, errorAnswer)] ≠
        .ok (upToFirstLive [(sampleSeed, errorAnswer)], firstLive [(sampleSeed, errorAnswer)]) := by
  have hrun : handshakeLoop (some zeroHash) [(sampleSeed, errorAnswer)] = .error .nullPointer := by
    rfl
  refine ⟨packetFromBytes_wire _, hrun, ?_⟩
  rw [hrun]
  intro h
  cases h

end Cdht.Startup
