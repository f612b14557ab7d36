/-
  Cdht/Joining.lean
  =================
  **A node joins a network of nodes** (`main` of `src/main.c`, with the processes of
  `NodeProcess.lean` at the other end).

  One node is in the handshake loop; the seeds are processes with a start-up, a receive
  loop and workers of their own, all of which move in any order.  A datagram that has
  been sent may arrive at any time after that, once, several times or never.  Strangers
  may send to the seeds, too.  An attempt has a socket of its own, but nobody promises
  that its address is not that of the socket of an earlier attempt, and the source of an
  answer is not looked at.

  The loop of `Startup.lean` takes what becomes of each ping from outside.  Here it comes
  out of the run, and the two agree: what the joining node has done at any time is what
  the loop does with the attempts that are over (`joins_answering_seed`).
-/
import Cdht.NodeProcess
import Cdht.Startup

namespace Cdht.Joining

open Cdht.Memory Cdht.Machine Cdht.LinkedCells Cdht.PacketCodec Cdht.PacketText
open Cdht.RequestHandler Cdht.Handshake Cdht.UdpClient Cdht.Settings Cdht.Startup
open Cdht.UdpServer (Server Move BUFFER_SIZE serverStep)
open Cdht.NodeProcess

variable {Addr W : Type}

/-! ### The network -/

/-- Where the joining node stands in the loop over its seeds. -/
inductive Joiner (Addr : Type) where
  | trying (seeds : List NodeAddr)
  | waiting (socket : Addr) (seed : NodeAddr) (seeds : List NodeAddr)
  | finished (seed : Option NodeAddr)

/-- The nodes by the address under which they are configured, the pings that have been
    sent (to whom, from which socket), the joining node, and the attempts that are over. -/
structure Net (Addr W : Type) where
  nodes : NodeAddr → Process Addr W
  pings : List (NodeAddr × Addr × Bytes)
  joiner : Joiner Addr
  tried : List (NodeAddr × Attempt)

inductive NetMove (Addr W : Type) where
  | ping (socket : Addr) (inetPton sendto : Bool)
  | noAnswer (wait : WaitResult)
  | answer (node : NodeAddr) (index : Nat)         -- a message that the node has sent arrives
  | arrive (index : Nat)                           -- a ping arrives
  | node (node : NodeAddr) (move : ProcessMove Addr W)

/-- The end of a turn of the loop: the test of the answer. -/
def conclude (net : Net Addr W) (seed : NodeAddr) (seeds : List NodeAddr) (attempt : Attempt)
    (res : Option Packet) : Exec (Unit × Net Addr W) := do
  let live ← handshakeTest res
  return ((), { net with
    joiner := if live then .finished (some seed) else .trying seeds
    tried := net.tried ++ [(seed, attempt)] })

section Moves

variable [DecidableEq W] [Fintype W] [DecidableEq Addr] (hash : CharArray 20)
  (hashOf : NodeAddr → CharArray 20)

def nodeMove (net : Net Addr W) (node : NodeAddr) (move : ProcessMove Addr W) :
    Exec (Unit × Net Addr W) := do
  let ((), process) ← processStep renderLog (hashOf node) (net.nodes node) move
  return ((), { net with nodes := Function.update net.nodes node process })

def netStep : Step (Net Addr W) (NetMove Addr W) Unit
  | net, .ping socket inetPton sendto =>
      match net.joiner with
      | .trying [] => .ok ((), { net with joiner := .finished none })
      | .trying (seed :: seeds) => do
          let req ← packetNew (some hash) 1 CMD_PING 1 none 0
          match ← sendRequest true req inetPton sendto with
          | none => conclude net seed seeds ⟨inetPton, sendto, .timeout⟩ none
          | some bytes =>
              return ((), { net with
                joiner := .waiting socket seed seeds
                pings := net.pings ++ [(seed, socket, bytes)] })
      | _ => .ok ((), net)
  | net, .noAnswer wait =>
      match net.joiner, wait with
      | .waiting _ _ _, .received _ => .ok ((), net)
      | .waiting _ seed seeds, wait => do
          let (_, res) ← awaitResponse wait
          conclude net seed seeds ⟨true, true, wait⟩ res
      | _, _ => .ok ((), net)
  | net, .answer node index =>
      match net.joiner, (net.nodes node).server.sent[index]? with
      | .waiting socket seed seeds, some (dest, bytes) =>
          if dest = socket then do
            let (_, res) ← awaitResponse (.received bytes)
            conclude net seed seeds ⟨true, true, .received bytes⟩ res
          else .ok ((), net)
      | _, _ => .ok ((), net)
  | net, .arrive index =>
      match net.pings[index]? with
      | some (node, socket, bytes) =>
          nodeMove hashOf net node (.thread (.recvfrom (some (socket, bytes))))
      | none => .ok ((), net)
  | net, .node node move => nodeMove hashOf net node move

end Moves

/-- `own` are the addresses that sockets of the joining node can have.  Strangers have
    other ones, and send nothing whose log line is too long. -/
def Admissible (own : Addr → Prop) : NetMove Addr W → Prop
  | .ping socket _ _ => own socket
  | .node _ (.thread (.recvfrom (some (source, datagram)))) =>
      ¬ own source ∧ Loggable (datagram.take BUFFER_SIZE)
  | _ => True

theorem admits_of_admissible {own : Addr → Prop} {node : NodeAddr} {move : ProcessMove Addr W}
    (h : Admissible own (.node node move)) : Admits move := by
  cases move with
  | main => trivial
  | thread move =>
    cases move with
    | recvfrom arrival =>
      rcases arrival with _ | ⟨source, datagram⟩
      · trivial
      · exact h.2
    | _ => trivial

def netNew (dummy : NodeAddr → Address) (buffer : NodeAddr → CharArray BUFFER_SIZE)
    (workers : NodeAddr → List W) (seeds : List NodeAddr) : Net Addr W :=
  ⟨fun node => processNew (dummy node) (buffer node) (workers node), [], .trying seeds, []⟩

/-! ### Pings and pongs -/

theorem take_ping (hash : CharArray 20) :
    (wire (pingPacket hash)).take BUFFER_SIZE = wire (pingPacket hash) := by
  apply List.take_of_length_le
  rw [length_wire]
  show HEADER_SIZE + (0 : UInt16).toNat ≤ BUFFER_SIZE
  decide

theorem loggable_ping (hash : CharArray 20) : Loggable (wire (pingPacket hash)) := by
  intro request hrequest
  rw [packetFromBytes_wire] at hrequest
  cases hrequest
  exact Or.inl (Nat.zero_le 82)

theorem replyFor_ping (hash hash' : CharArray 20) :
    replyFor hash' (wire (pingPacket hash)) = wire (pongPacket hash' 1) := by
  rw [replyFor, packetFromBytes_wire]
  rfl

theorem awaitResponse_pong (hash : CharArray 20) :
    awaitResponse (.received (wire (pongPacket hash 1))) = .ok (0, some (pongPacket hash 1)) := by
  apply awaitResponse_received
  rw [length_wire]
  show HEADER_SIZE + (4 : UInt16).toNat ≤ UDP_MAX
  decide

theorem handshakeTest_pong (hash : CharArray 20) :
    handshakeTest (some (pongPacket hash 1)) = .ok true := rfl

theorem answer_timeout (inetPton sendto : Bool) :
    Startup.answer ⟨inetPton, sendto, .timeout⟩ = none := by
  unfold Startup.answer
  split
  · rfl
  · rfl

/-! ### One node -/

theorem answered_of_effect [DecidableEq W] {requestHandler : Bytes → Exec (Block × Nat)}
    {server server' : Server Addr W}
    {requests requests' : List (UdpServer.UdpRequest Addr)}
    (h : UdpServer.Effect requestHandler server requests server' requests') {datagram : Addr × Bytes}
    (hmem : datagram ∈ server.answered) : datagram ∈ server'.answered := by
  cases h with
  | sends => exact List.mem_append_left _ hmem
  | _ => exact hmem

section Node

variable [Fintype W]

/-- A message of a node is the reply to something that was delivered to it. -/
theorem sent_from_answered {hash : CharArray 20} {process : Process Addr W}
    (h : Survives hash process) {message : Addr × Bytes} (hmem : message ∈ process.server.sent) :
    ∃ data, (message.1, data) ∈ process.server.answered ∧
      (message.1, data) ∈ process.server.delivered ∧ message.2 = replyFor hash data := by
  rw [h.sent_eq] at hmem
  obtain ⟨⟨source, data⟩, hanswered, rfl⟩ := List.mem_map.mp hmem
  exact ⟨data, hanswered, h.delivered_of_answered hanswered, rfl⟩

variable [DecidableEq W]

/-- A move of a process is a move of its server, or the server stays as it is. -/
theorem server_step {log : Packet → Exec Unit} {hash : CharArray 20} {process next : Process Addr W}
    (h : Sound log hash process) {move : ProcessMove Addr W}
    (hstep : processStep log hash process move = .ok ((), next)) :
    next.server = process.server ∨ ∃ serverMove, move = .thread serverMove ∧
      serverStep (fullHandler log hash) process.server serverMove = .ok ((), next.server) := by
  cases move with
  | main =>
    cases hstep
    exact Or.inl (mainStep_server process)
  | thread move =>
    by_cases hthread : process.hasThread move = true
    · rw [processStep, if_pos hthread] at hstep
      rcases threadMove_eq h move with heq | heq
      · rw [heq, serverMove, h.serverStep_handler] at hstep
        obtain ⟨⟨⟨⟩, server⟩, hserver, hstep⟩ := bind_eq_ok hstep
        cases hstep
        exact Or.inr ⟨move, rfl, hserver⟩
      · rw [heq] at hstep
        cases hstep
        exact Or.inl rfl
    · rw [processStep, if_neg hthread] at hstep
      cases hstep
      exact Or.inl rfl

/-- What was answered stays answered. -/
theorem answered_step {hash : CharArray 20} {process next : Process Addr W}
    (h : Survives hash process) {move : ProcessMove Addr W}
    (hstep : processStep renderLog hash process move = .ok ((), next)) {datagram : Addr × Bytes}
    (hmem : datagram ∈ process.server.answered) : datagram ∈ next.server.answered := by
  obtain ⟨hsound, ⟨requests, husable, -⟩, -⟩ := h
  rcases server_step hsound hstep with heq | ⟨serverMove, -, hserver⟩
  · rw [heq]
    exact hmem
  · obtain ⟨requests', -, heffect⟩ := UdpServer.effect_of_serverStep _ husable hserver
    exact answered_of_effect heffect hmem

/-- What was delivered was delivered before, or arrives by this move. -/
theorem delivered_processStep {hash : CharArray 20} {process next : Process Addr W}
    (h : Survives hash process) {move : ProcessMove Addr W}
    (hstep : processStep renderLog hash process move = .ok ((), next)) {datagram : Addr × Bytes}
    (hmem : datagram ∈ next.server.delivered) :
    datagram ∈ process.server.delivered ∨
      ∃ bytes, move = .thread (.recvfrom (some (datagram.1, bytes))) ∧
        datagram.2 = bytes.take BUFFER_SIZE := by
  rcases server_step h.1 hstep with heq | ⟨serverMove, rfl, hserver⟩
  · rw [heq] at hmem
    exact Or.inl hmem
  · rcases delivered_step hserver hmem with hold | ⟨bytes, rfl, htake⟩
    · exact Or.inl hold
    · exact Or.inr ⟨bytes, rfl, htake⟩

end Node

/-! ### What holds in every state -/

section Invariant

variable [Fintype W] (own : Addr → Prop) (hash : CharArray 20)
  (hashOf : NodeAddr → CharArray 20) (seeds : List NodeAddr)

def Silent (tried : List (NodeAddr × Attempt)) : Prop := ∀ entry ∈ tried, Startup.answer entry.2 = none

/-- The attempt ended with a pong, from a node that was pinged from the same socket and
    has answered. -/
def Heard (net : Net Addr W) (seed : NodeAddr) (attempt : Attempt) : Prop :=
  ∃ socket node, (seed, socket, wire (pingPacket hash)) ∈ net.pings ∧
    (node, socket, wire (pingPacket hash)) ∈ net.pings ∧
    (socket, wire (pingPacket hash)) ∈ (net.nodes node).server.answered ∧
    attempt = ⟨true, true, .received (wire (pongPacket (hashOf node) 1))⟩

/-- What the joining node has behind it, and what is left. -/
def Progress (net : Net Addr W) : Prop :=
  match net.joiner with
  | .trying rest => Silent net.tried ∧ net.tried.map Prod.fst ++ rest = seeds
  | .waiting socket seed rest => Silent net.tried ∧ net.tried.map Prod.fst ++ seed :: rest = seeds ∧
      (seed, socket, wire (pingPacket hash)) ∈ net.pings
  | .finished none => Silent net.tried ∧ net.tried.map Prod.fst = seeds
  | .finished (some seed) => ∃ front attempt rest, net.tried = front ++ [(seed, attempt)] ∧
      Silent front ∧ Heard hash hashOf net seed attempt ∧ net.tried.map Prod.fst ++ rest = seeds

structure Consistent (net : Net Addr W) : Prop where
  pings : ∀ ping ∈ net.pings, own ping.2.1 ∧ ping.2.2 = wire (pingPacket hash)
  survives : ∀ node, Survives (hashOf node) (net.nodes node)
  asked : ∀ node, ∀ datagram ∈ (net.nodes node).server.delivered, own datagram.1 →
    datagram.2 = wire (pingPacket hash) ∧ (node, datagram.1, wire (pingPacket hash)) ∈ net.pings
  progress : Progress hash hashOf seeds net

end Invariant

/-- Answers of the nodes do not take away what was heard. -/
theorem Heard.mono {hash : CharArray 20} {hashOf : NodeAddr → CharArray 20} {net : Net Addr W}
    {seed : NodeAddr} {attempt : Attempt} (h : Heard hash hashOf net seed attempt)
    {nodes : NodeAddr → Process Addr W}
    (hanswered : ∀ node, ∀ datagram ∈ (net.nodes node).server.answered,
      datagram ∈ (nodes node).server.answered) :
    Heard hash hashOf { net with nodes := nodes } seed attempt := by
  obtain ⟨socket, node, hseed, hnode, hmem, hattempt⟩ := h
  exact ⟨socket, node, hseed, hnode, hanswered node _ hmem, hattempt⟩

theorem Progress.mono {hash : CharArray 20} {hashOf : NodeAddr → CharArray 20}
    {seeds : List NodeAddr} {net : Net Addr W} (h : Progress hash hashOf seeds net)
    {nodes : NodeAddr → Process Addr W}
    (hanswered : ∀ node, ∀ datagram ∈ (net.nodes node).server.answered,
      datagram ∈ (nodes node).server.answered) :
    Progress hash hashOf seeds { net with nodes := nodes } := by
  obtain ⟨nodes', pings, joiner, tried⟩ := net
  match joiner, h with
  | .trying rest, h => exact h
  | .waiting socket seed rest, h => exact h
  | .finished none, h => exact h
  | .finished (some seed), ⟨front, attempt, rest, htried, hsilent, hheard, hseeds⟩ =>
    exact ⟨front, attempt, rest, htried, hsilent, hheard.mono hanswered, hseeds⟩

section Steps

variable [Fintype W] {own : Addr → Prop} {hash : CharArray 20}
  {hashOf : NodeAddr → CharArray 20} {seeds : List NodeAddr} {net : Net Addr W}
  (h : Consistent own hash hashOf seeds net)

include h

/-- An attempt without an answer is over, and the next seed has its turn. -/
theorem Consistent.silent {seed : NodeAddr} {rest : List NodeAddr} {attempt : Attempt}
    (hseeds : net.tried.map Prod.fst ++ seed :: rest = seeds) (hsilent : Silent net.tried)
    (hnone : Startup.answer attempt = none) :
    ∃ next, conclude net seed rest attempt none = .ok ((), next) ∧
      Consistent own hash hashOf seeds next := by
  refine ⟨{ net with joiner := .trying rest, tried := net.tried ++ [(seed, attempt)] }, rfl, h.pings,
    h.survives, h.asked, ?_, ?_⟩
  · intro entry hentry
    rcases List.mem_append.mp hentry with hold | hnew
    · exact hsilent entry hold
    · rw [List.mem_singleton.mp hnew]
      exact hnone
  · rw [List.map_append, List.append_assoc]
    exact hseeds

/-- What arrives at a socket is a pong. -/
theorem Consistent.pong {socket : Addr} (hown : own socket) {node : NodeAddr} {bytes : Bytes}
    (hmem : (socket, bytes) ∈ (net.nodes node).server.sent) :
    bytes = wire (pongPacket (hashOf node) 1) ∧
      (node, socket, wire (pingPacket hash)) ∈ net.pings ∧
      (socket, wire (pingPacket hash)) ∈ (net.nodes node).server.answered := by
  obtain ⟨data, hanswered, hdelivered, hbytes⟩ := sent_from_answered (h.survives node) hmem
  obtain ⟨hdata, hping⟩ := h.asked node _ hdelivered hown
  simp only at hdata hbytes hping
  subst hdata
  exact ⟨hbytes.trans (replyFor_ping hash _), hping, hanswered⟩

variable [DecidableEq W]

theorem Consistent.node {node : NodeAddr} {move : ProcessMove Addr W} (hadmits : Admits move)
    (harrival : ∀ source bytes, move = .thread (.recvfrom (some (source, bytes))) → own source →
      bytes = wire (pingPacket hash) ∧ (node, source, wire (pingPacket hash)) ∈ net.pings) :
    ∃ next, nodeMove hashOf net node move = .ok ((), next) ∧ Consistent own hash hashOf seeds next := by
  obtain ⟨process, hstep, hsurvives⟩ := (h.survives node).step hadmits
  refine ⟨{ net with nodes := Function.update net.nodes node process }, ?_, h.pings, ?_, ?_, ?_⟩
  · simp only [nodeMove, hstep, ok_bind, pure_eq_ok]
  · intro other
    by_cases heq : other = node
    · subst heq
      simpa only [Function.update_self] using hsurvives
    · simpa only [Function.update_of_ne heq] using h.survives other
  · intro other datagram hmem hown
    by_cases heq : other = node
    · subst heq
      simp only [Function.update_self] at hmem
      rcases delivered_processStep (h.survives other) hstep hmem with hold | ⟨bytes, rfl, htake⟩
      · exact h.asked other datagram hold hown
      · obtain ⟨rfl, hping⟩ := harrival datagram.1 bytes rfl hown
        exact ⟨htake.trans (take_ping hash), hping⟩
    · simp only [Function.update_of_ne heq] at hmem
      exact h.asked other datagram hmem hown
  · apply h.progress.mono
    intro other datagram hmem
    by_cases heq : other = node
    · subst heq
      simpa only [Function.update_self] using answered_step (h.survives other) hstep hmem
    · simpa only [Function.update_of_ne heq] using hmem

variable [DecidableEq Addr]

theorem Consistent.ping {socket : Addr} (hown : own socket) (inetPton sendto : Bool) :
    ∃ next, netStep hash hashOf net (.ping socket inetPton sendto) = .ok ((), next) ∧
      Consistent own hash hashOf seeds next := by
  have hprogress := h.progress
  unfold Progress at hprogress
  rcases hjoiner : net.joiner with (_ | ⟨seed, rest⟩) | ⟨_, _, _⟩ | _
  · -- every seed has had its turn
    rw [hjoiner] at hprogress
    obtain ⟨hsilent, hseeds⟩ := hprogress
    rw [List.append_nil] at hseeds
    refine ⟨{ net with joiner := .finished none }, ?_, h.pings, h.survives, h.asked, hsilent, hseeds⟩
    simp only [netStep, hjoiner]
  · rw [hjoiner] at hprogress
    obtain ⟨hsilent, hseeds⟩ := hprogress
    have hreq : packetNew (some hash) 1 CMD_PING 1 none 0 = .ok (pingPacket hash) := rfl
    simp only [netStep, hjoiner, hreq, ok_bind, sendRequest_eq]
    by_cases hsends : Sends true (pingPacket hash) inetPton sendto
    · simp only [if_pos hsends, pure_eq_ok]
      refine ⟨_, rfl, ?_, h.survives, ?_, hsilent, hseeds, List.mem_append_right _ List.mem_cons_self⟩
      · intro ping hping
        rcases List.mem_append.mp hping with hold | hnew
        · exact h.pings ping hold
        · rw [List.mem_singleton.mp hnew]
          exact ⟨hown, rfl⟩
      · intro node datagram hmem hdatagram
        obtain ⟨hdata, hping⟩ := h.asked node datagram hmem hdatagram
        exact ⟨hdata, List.mem_append_left _ hping⟩
    · simp only [if_neg hsends]
      exact h.silent hseeds hsilent (answer_timeout inetPton sendto)
  · exact ⟨net, by simp only [netStep, hjoiner], h⟩
  · exact ⟨net, by simp only [netStep, hjoiner], h⟩

theorem Consistent.noAnswer (wait : WaitResult) :
    ∃ next, netStep hash hashOf net (.noAnswer wait) = .ok ((), next) ∧
      Consistent own hash hashOf seeds next := by
  have hprogress := h.progress
  unfold Progress at hprogress
  rcases hjoiner : net.joiner with _ | ⟨socket, seed, rest⟩ | _
  · exact ⟨net, by simp only [netStep, hjoiner], h⟩
  · rw [hjoiner] at hprogress
    obtain ⟨hsilent, hseeds, -⟩ := hprogress
    cases wait with
    | received datagram => exact ⟨net, by simp only [netStep, hjoiner], h⟩
    | selectError =>
      simp only [netStep, hjoiner, awaitResponse, ok_bind]
      exact h.silent hseeds hsilent rfl
    | timeout =>
      simp only [netStep, hjoiner, awaitResponse, ok_bind]
      exact h.silent hseeds hsilent rfl
    | recvError =>
      simp only [netStep, hjoiner, awaitResponse, ok_bind]
      exact h.silent hseeds hsilent rfl
  · exact ⟨net, by simp only [netStep, hjoiner], h⟩

/-- An answer to the socket ends the loop. -/
theorem Consistent.answer (node : NodeAddr) (index : Nat) :
    ∃ next, netStep hash hashOf net (.answer node index) = .ok ((), next) ∧
      Consistent own hash hashOf seeds next := by
  have hprogress := h.progress
  unfold Progress at hprogress
  rcases hjoiner : net.joiner with _ | ⟨socket, seed, rest⟩ | _
  · exact ⟨net, by simp only [netStep, hjoiner], h⟩
  · rw [hjoiner] at hprogress
    obtain ⟨hsilent, hseeds, hping⟩ := hprogress
    rcases hsent : (net.nodes node).server.sent[index]? with _ | ⟨dest, bytes⟩
    · exact ⟨net, by simp only [netStep, hjoiner, hsent], h⟩
    · by_cases hdest : dest = socket
      · subst hdest
        obtain ⟨rfl, hnode, hanswered⟩ :=
          h.pong (h.pings _ hping).1 (List.mem_of_getElem? hsent)
        refine ⟨{ net with
          joiner := .finished (some seed)
          tried := net.tried ++
            [(seed, ⟨true, true, .received (wire (pongPacket (hashOf node) 1))⟩)] }, ?_, h.pings,
          h.survives, h.asked, net.tried, _, rest, rfl, hsilent,
          ⟨dest, node, hping, hnode, hanswered, rfl⟩, ?_⟩
        · simp only [netStep, hjoiner, hsent, if_true, awaitResponse_pong, ok_bind, conclude,
            handshakeTest_pong, pure_eq_ok]
        · rw [List.map_append, List.append_assoc]
          exact hseeds
      · exact ⟨net, by simp only [netStep, hjoiner, hsent, if_neg hdest], h⟩
  · exact ⟨net, by simp only [netStep, hjoiner], h⟩

theorem Consistent.step {move : NetMove Addr W} (hmove : Admissible own move) :
    ∃ next, netStep hash hashOf net move = .ok ((), next) ∧
      Consistent own hash hashOf seeds next := by
  cases move with
  | ping socket inetPton sendto => exact h.ping hmove inetPton sendto
  | noAnswer wait => exact h.noAnswer wait
  | answer node index => exact h.answer node index
  | arrive index =>
    rcases hping : net.pings[index]? with _ | ⟨node, socket, bytes⟩
    · exact ⟨net, by simp only [netStep, hping], h⟩
    · have hmem := List.mem_of_getElem? hping
      obtain ⟨-, hbytes⟩ := h.pings _ hmem
      simp only at hbytes
      subst hbytes
      simp only [netStep, hping]
      apply h.node
      · show Loggable _
        rw [take_ping]
        exact loggable_ping hash
      · intro source data heq _
        cases heq
        exact ⟨rfl, hmem⟩
  | node node move =>
    rw [netStep]
    apply h.node (admits_of_admissible hmove)
    rintro source bytes rfl hown
    exact absurd hown hmove.1

end Steps

/-! ### Whole runs -/

theorem handshakeLoop_silent (hash : CharArray 20) {tried : List (NodeAddr × Attempt)}
    (h : Silent tried) (more : List (NodeAddr × Attempt)) :
    handshakeLoop (some hash) (tried ++ more) =
      handshakeLoop (some hash) more >>= fun rest => .ok (tried.map Prod.fst ++ rest.1, rest.2) := by
  induction tried with
  | nil =>
    rcases hmore : handshakeLoop (some hash) more with fault | ⟨contacted, live⟩
    · rw [List.nil_append, hmore]
      rfl
    · rw [List.nil_append, hmore]
      rfl
  | cons entry tried ih =>
    obtain ⟨seed, attempt⟩ := entry
    have hnone : Startup.answer attempt = none := h (seed, attempt) List.mem_cons_self
    have hrest := ih fun other hother => h other (List.mem_cons_of_mem _ hother)
    have htest : handshakeTest none = .ok false := rfl
    rw [List.cons_append, handshakeLoop_cons, hnone, htest, ok_bind, hrest]
    rcases handshakeLoop (some hash) more with fault | ⟨contacted, live⟩
    · rfl
    · rfl

theorem handshakeLoop_of_silent (hash : CharArray 20) {tried : List (NodeAddr × Attempt)}
    (h : Silent tried) :
    handshakeLoop (some hash) tried = .ok (tried.map Prod.fst, none) := by
  have hloop := handshakeLoop_silent hash h []
  rw [List.append_nil] at hloop
  rw [hloop]
  simp only [handshakeLoop, ok_bind, List.append_nil]

theorem handshakeLoop_of_pong (hash hash' : CharArray 20) {front : List (NodeAddr × Attempt)}
    (h : Silent front) (seed : NodeAddr) :
    handshakeLoop (some hash)
        (front ++ [(seed, ⟨true, true, .received (wire (pongPacket hash' 1))⟩)]) =
      .ok (front.map Prod.fst ++ [seed], some seed) := by
  have hanswer : Startup.answer ⟨true, true, .received (wire (pongPacket hash' 1))⟩ =
      some (pongPacket hash' 1) := by
    simp only [Startup.answer, awaitResponse_pong, Bool.and_self, if_true]
  rw [handshakeLoop_silent hash h, handshakeLoop_cons, hanswer, handshakeTest_pong]
  rfl

section Runs

variable [Fintype W] (own : Addr → Prop) (hash : CharArray 20) (hashOf : NodeAddr → CharArray 20)
  (dummy : NodeAddr → Address) (buffer : NodeAddr → CharArray BUFFER_SIZE)
  (workers : NodeAddr → List W) (seeds : List NodeAddr)

theorem consistent_new :
    Consistent own hash hashOf seeds (netNew dummy buffer workers seeds : Net Addr W) := by
  refine ⟨?_, fun node => survives_new _ _ _ _, ?_, ?_, rfl⟩
  · intro ping hping
    cases hping
  · intro node datagram hmem
    cases hmem
  · intro entry hentry
    cases hentry

variable [DecidableEq W] [DecidableEq Addr]

/-- **A node joins through a node that has answered it.**  Whatever the seeds, the network
    and strangers do, no step of the joining node or of a seed faults, and at any time the
    joining node has done with the first seeds of its list what the loop of `main` does
    with them.  A seed without an answer is passed over; if the loop ends without a seed,
    none of them was heard.  If it ends with a seed, the pong came from a node that was
    pinged from the socket of this attempt and has answered, which is the seed itself if
    no two attempts had sockets of the same address. -/
theorem joins_answering_seed (moves : List (NetMove Addr W))
    (hmoves : ∀ move ∈ moves, Admissible own move) :
    ∃ outputs net, run (netStep hash hashOf) (netNew dummy buffer workers seeds) moves =
        .ok (outputs, net) ∧ net.tried.map Prod.fst <+: seeds ∧
      match net.joiner with
      | .trying _ | .waiting _ _ _ =>
          handshakeLoop (some hash) net.tried = .ok (net.tried.map Prod.fst, none)
      | .finished none => handshakeLoop (some hash) net.tried = .ok (seeds, none)
      | .finished (some seed) =>
          handshakeLoop (some hash) net.tried = .ok (net.tried.map Prod.fst, some seed) ∧
          (∃ socket node, (seed, socket, wire (pingPacket hash)) ∈ net.pings ∧
            (node, socket, wire (pingPacket hash)) ∈ net.pings ∧
            (socket, wire (pingPacket hash)) ∈ (net.nodes node).server.answered) ∧
          ((net.pings.map fun ping => ping.2.1).Nodup →
            ∃ socket, (seed, socket, wire (pingPacket hash)) ∈ net.pings ∧
              (socket, wire (pingPacket hash)) ∈ (net.nodes seed).server.answered) := by
  obtain ⟨net, hrun, hnet⟩ := run_refines (netStep hash hashOf)
    (fun (_ : Unit) (_ : NetMove Addr W) => ((), ()))
    (fun net _ => Consistent own hash hashOf seeds net) (Admissible own)
    (fun net _ move hnet hmove => hnet.step hmove) moves _ ()
    (consistent_new own hash hashOf dummy buffer workers seeds) hmoves
  refine ⟨_, net, hrun, ?_⟩
  have hprogress := hnet.progress
  unfold Progress at hprogress
  rcases hjoiner : net.joiner with rest | ⟨socket, seed, rest⟩ | (_ | seed)
  · rw [hjoiner] at hprogress
    obtain ⟨hsilent, hseeds⟩ := hprogress
    exact ⟨⟨rest, hseeds⟩, handshakeLoop_of_silent hash hsilent⟩
  · rw [hjoiner] at hprogress
    obtain ⟨hsilent, hseeds, -⟩ := hprogress
    exact ⟨⟨seed :: rest, hseeds⟩, handshakeLoop_of_silent hash hsilent⟩
  · rw [hjoiner] at hprogress
    obtain ⟨hsilent, hseeds⟩ := hprogress
    have hloop := handshakeLoop_of_silent hash hsilent
    rw [hseeds] at hloop
    exact ⟨⟨[], by rw [List.append_nil, hseeds]⟩, hloop⟩
  · rw [hjoiner] at hprogress
    obtain ⟨front, attempt, rest, htried, hsilent, ⟨socket, node, hseed, hnode, hanswered, rfl⟩,
      hseeds⟩ := hprogress
    have hloop := handshakeLoop_of_pong hash (hashOf node) hsilent seed
    rw [← htried] at hloop
    refine ⟨⟨rest, hseeds⟩, ?_, ⟨socket, node, hseed, hnode, hanswered⟩, fun hnodup => ?_⟩
    · rw [hloop, htried, List.map_append]
      rfl
    · have hsame := List.inj_on_of_nodup_map hnodup hseed hnode rfl
      obtain rfl : seed = node := congrArg Prod.fst hsame
      exact ⟨socket, hseed, hanswered⟩

end Runs

/-- The seed starts while the ping is on its way, and somebody else writes to it. -/
def slowSeed : List (NetMove Nat Unit) :=
  .ping 7 true true :: List.replicate 262 (.node sampleSeed .main) ++
    [.node sampleSeed (.thread (.recvfrom (some (8, [])))), .arrive 0,
      .node sampleSeed (.thread (.enqueue 1 none)), .node sampleSeed (.thread (.dequeue ())),
      .node sampleSeed (.thread (.handle ())), .node sampleSeed (.thread (.sendto ())),
      .answer sampleSeed 0]

theorem admissible_slowSeed : ∀ move ∈ slowSeed, Admissible (· = 7) move := by
  have hloggable : Loggable (([] : Bytes).take BUFFER_SIZE) := by
    intro request hrequest
    cases hrequest
  intro move hmove
  simp only [slowSeed, List.cons_append, List.mem_cons, List.mem_append, List.mem_replicate,
    List.not_mem_nil, or_false] at hmove
  rcases hmove with rfl | ⟨-, rfl⟩ | rfl | rfl | rfl | rfl | rfl | rfl | rfl
  · rfl
  · trivial
  · exact ⟨by decide, hloggable⟩
  all_goals trivial

theorem joins_answering_seed_slowSeed :
    ∃ outputs net, run (netStep zeroHash fun _ => zeroHash)
        (netNew (fun _ => 0) (fun _ => UdpServer.zeroBuffer) (fun _ => [()]) [sampleSeed]) slowSeed =
          .ok (outputs, net) ∧ net.tried.map Prod.fst <+: [sampleSeed] := by
  obtain ⟨outputs, net, hrun, htried, -⟩ := joins_answering_seed (· = 7) zeroHash (fun _ => zeroHash)
    (fun _ => 0) (fun _ => UdpServer.zeroBuffer) (fun _ => [()]) [sampleSeed] slowSeed admissible_slowSeed
  exact ⟨outputs, net, hrun, htried⟩

end Cdht.Joining
