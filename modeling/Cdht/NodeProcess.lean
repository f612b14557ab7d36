/-
  Cdht/NodeProcess.lean
  =====================
  **A node from its start on** (`node_new` of `src/node/node.c`, `main`,
  `udp_server_new` and `load_commands`, over the server of `UdpServer.lean`).

  `udp_server_new` starts the workers while the server has no request handler, the
  command table is all NULL and so is `global_node`; the main thread sets these one
  after the other and enters the receive loop at last.  A state says how far it is.  A
  run is any sequence of moves of the main thread, of the receive loop that it becomes,
  and of the workers that exist.

  Nothing is in the queue before the receive loop begins, so a worker that has a request
  finds everything set: the node is at all times a server with the complete handler
  (`process_follows_server`).  It survives every interleaving and every datagram but
  those whose log line is too long (`process_survives`).

  The steps of the main thread that no other thread can see (the identity and its hash,
  the store, the client and the handshake) are left out; `hash` is the hash they end up
  with.
-/
import Cdht.Handshake
import Cdht.UdpDelivery

namespace Cdht.NodeProcess

open Cdht.Memory Cdht.Machine Cdht.LinkedCells Cdht.WorkQueue Cdht.PacketCodec Cdht.PacketText
open Cdht.RequestHandler Cdht.UdpServer
open Cdht.Handshake (zeroHash)

variable {Addr W : Type}

/-! ### The threads -/

abbrev Handler := CommandTable → GlobalNode → Bytes → Exec (Block × Nat)

/-- Where the main thread stands: in the loop of `pthread_create` with some workers to
    go, before `udp_server_set_request_handler`, in the loop of `load_commands`, before
    `global_node = node`, or in the receive loop. -/
inductive Stage (W : Type) where
  | creating (workers : List W)
  | settingHandler
  | loading (i : Nat)
  | publishing
  | serving

def Stage.isServing : Stage W → Bool
  | .serving => true
  | _ => false

structure Process (Addr W : Type) where
  server : Server Addr W
  created : W → Bool
  requestHandler : Option Handler
  dispatcher : CommandTable
  globalNode : GlobalNode
  stage : Stage W

/-- The process in `udp_server_new`, when the queue is made and no worker runs yet. -/
def processNew (dummy : Address) (buffer : CharArray BUFFER_SIZE) (workers : List W) :
    Process Addr W where
  server := serverNew dummy buffer
  created := fun _ => false
  requestHandler := none
  dispatcher := nullTable
  globalNode := none
  stage := .creating workers

section Moves

variable [DecidableEq W] (log : Packet → Exec Unit) (hash : CharArray 20)

/-- The next step of the main thread up to the receive loop. -/
def mainStep (process : Process Addr W) : Process Addr W :=
  match process.stage with
  | .creating (worker :: workers) =>
      { process with
        created := Function.update process.created worker true
        stage := .creating workers }
  | .creating [] => { process with stage := .settingHandler }
  | .settingHandler =>
      { process with requestHandler := some (nodeRequestHandler log), stage := .loading 0 }
  | .loading i =>
      if i < 256 then
        { process with
          dispatcher := process.dispatcher.setIfInBounds i (some emptyCommand)
          stage := .loading (i + 1) }
      else
        { process with
          dispatcher := process.dispatcher.setIfInBounds CMD_PING.toNat (some commandPing)
          stage := .publishing }
  | .publishing => { process with globalNode := some hash, stage := .serving }
  | .serving => process

/-- The worker that makes a move; the receive loop makes the others. -/
def workerOf : Move Addr W → Option W
  | .recvfrom _ | .enqueue _ _ => none
  | .dequeue worker | .wakeUp worker | .handle worker | .sendto worker => some worker

def Process.hasThread (process : Process Addr W) (move : Move Addr W) : Bool :=
  match workerOf move with
  | none => process.stage.isServing
  | some worker => process.created worker

/-- What a call of `server->request_handler` does at present. -/
def Process.handler (process : Process Addr W) : Bytes → Exec (Block × Nat) :=
  match process.requestHandler with
  | none => fun _ => .error .nullPointer
  | some handler => handler process.dispatcher process.globalNode

inductive ProcessMove (Addr W : Type) where
  | main
  | thread (move : Move Addr W)

/-- A worker with a request finds no handler: the request is freed without an answer. -/
def dropRequest (process : Process Addr W) (worker : W) : Process Addr W :=
  match process.server.workers worker with
  | .holding _ => { process with server := process.server.setWorker worker .awake }
  | _ => process

variable [Fintype W]

def serverMove (process : Process Addr W) (move : Move Addr W) : Exec (Unit × Process Addr W) := do
  let result ← serverStep process.handler process.server move
  return ((), { process with server := result.2 })

def threadMove (process : Process Addr W) : Move Addr W → Exec (Unit × Process Addr W)
  | .handle worker =>
      if process.requestHandler.isSome then serverMove process (.handle worker)
      else .ok ((), dropRequest process worker)
  | move => serverMove process move

def processStep : Step (Process Addr W) (ProcessMove Addr W) Unit
  | process, .main => .ok ((), mainStep log hash process)
  | process, .thread move =>
      if process.hasThread move then threadMove process move else .ok ((), process)

end Moves

/-! ### Before the receive loop -/

def Idle : Worker Addr → Prop
  | .awake | .asleep | .woken => True
  | _ => False

/-- Nothing has happened but that workers have looked at the empty queue. -/
structure Quiet (server : Server Addr W) : Prop where
  empty : Holds server.heap server.queue []
  receiving : server.receiver = .receiving
  idle : ∀ worker, Idle (server.workers worker)
  unheard : server.delivered = []
  silent : server.sent = []

theorem quiet_new (dummy : Address) (buffer : CharArray BUFFER_SIZE) :
    Quiet (serverNew dummy buffer : Server Addr W) :=
  ⟨holds_new none dummy, rfl, fun _ => trivial, rfl, rfl⟩

theorem Quiet.not_holding {server : Server Addr W} (h : Quiet server) {worker : W}
    {req : UdpRequest Addr} : server.workers worker ≠ .holding req := by
  intro hholding
  have hidle := h.idle worker
  rw [hholding] at hidle
  exact hidle

section Steps

variable [DecidableEq W]

theorem Quiet.setWorker {server : Server Addr W} (h : Quiet server) (worker : W)
    {state : Worker Addr} (hstate : Idle state) : Quiet (server.setWorker worker state) := by
  refine ⟨h.empty, h.receiving, fun other => ?_, h.unheard, h.silent⟩
  by_cases hother : other = worker
  · subst hother
    simpa only [Server.setWorker, Function.update_self] using hstate
  · simpa only [Server.setWorker, Function.update_of_ne hother] using h.idle other

variable [Fintype W]

/-- The handler matters for the requests that workers have. -/
theorem serverStep_congr {requestHandler requestHandler' : Bytes → Exec (Block × Nat)}
    {server : Server Addr W}
    (h : ∀ worker req, server.workers worker = .holding req →
      requestHandler req.data = requestHandler' req.data) (move : Move Addr W) :
    serverStep requestHandler server move = serverStep requestHandler' server move := by
  cases move with
  | handle worker =>
    rcases hworker : server.workers worker with _ | _ | _ | req | ⟨req, output, len⟩
    case holding => simp only [serverStep, hworker, h worker req hworker]
    all_goals simp only [serverStep, hworker]
  | _ => rfl

/-- The workers cannot break the quiet. -/
theorem Quiet.step {requestHandler : Bytes → Exec (Block × Nat)} {server server' : Server Addr W}
    (h : Quiet server) {move : Move Addr W} {worker : W} (hworker : workerOf move = some worker)
    (hstep : serverStep requestHandler server move = .ok ((), server')) : Quiet server' := by
  have hidle := h.idle worker
  cases move with
  | recvfrom arrival => cases hworker
  | enqueue node choice => cases hworker
  | dequeue other =>
    obtain rfl : other = worker := Option.some.inj hworker
    have hsleeps : workerDequeue server other = .ok (server.setWorker other .asleep) := by
      simp only [workerDequeue, xqueueDequeue_nil h.empty, ok_bind, pure_eq_ok]
    rcases hstate : server.workers other with _ | _ | _ | req | ⟨req, output, len⟩
    case awake | woken =>
      simp only [serverStep, hstate, hsleeps, ok_bind, pure_eq_ok] at hstep
      cases hstep
      exact h.setWorker other trivial
    case asleep =>
      simp only [serverStep, hstate] at hstep
      cases hstep
      exact h
    all_goals
      rw [hstate] at hidle
      cases hidle
  | wakeUp other =>
    obtain rfl : other = worker := Option.some.inj hworker
    rcases hstate : server.workers other with _ | _ | _ | req | ⟨req, output, len⟩
    case asleep =>
      simp only [serverStep, hstate] at hstep
      cases hstep
      exact h.setWorker other trivial
    all_goals
      simp only [serverStep, hstate] at hstep
      cases hstep
      exact h
  | handle other =>
    obtain rfl : other = worker := Option.some.inj hworker
    rcases hstate : server.workers other with _ | _ | _ | req | ⟨req, output, len⟩
    case holding => exact absurd hstate h.not_holding
    all_goals
      simp only [serverStep, hstate] at hstep
      cases hstep
      exact h
  | sendto other =>
    obtain rfl : other = worker := Option.some.inj hworker
    rcases hstate : server.workers other with _ | _ | _ | req | ⟨req, output, len⟩
    case replying =>
      rw [hstate] at hidle
      cases hidle
    all_goals
      simp only [serverStep, hstate] at hstep
      cases hstep
      exact h

end Steps

/-! ### How far the main thread is -/

section Progress

variable (log : Packet → Exec Unit) (hash : CharArray 20)

def Progress (process : Process Addr W) : Prop :=
  match process.stage with
  | .creating _ | .settingHandler => process.dispatcher = nullTable
  | .loading i =>
      process.requestHandler = some (nodeRequestHandler log) ∧ i ≤ 256 ∧
        process.dispatcher = loadCommandsLoop i 0 nullTable
  | .publishing =>
      process.requestHandler = some (nodeRequestHandler log) ∧
        process.dispatcher = loadCommands nullTable
  | .serving =>
      process.requestHandler = some (nodeRequestHandler log) ∧
        process.dispatcher = loadCommands nullTable ∧ process.globalNode = some hash

structure Sound (process : Process Addr W) : Prop where
  progress : Progress log hash process
  quiet : process.stage.isServing = false → Quiet process.server

variable {log hash}

theorem sound_new (dummy : Address) (buffer : CharArray BUFFER_SIZE) (workers : List W) :
    Sound log hash (processNew dummy buffer workers : Process Addr W) :=
  ⟨rfl, fun _ => quiet_new dummy buffer⟩

theorem loadCommandsLoop_succ (n : Nat) : ∀ (i : Nat) (table : CommandTable),
    loadCommandsLoop (n + 1) i table =
      (loadCommandsLoop n i table).setIfInBounds (i + n) (some emptyCommand) := by
  induction n with
  | zero =>
    intro i table
    rfl
  | succ n ih =>
    intro i table
    rw [loadCommandsLoop, ih, loadCommandsLoop, Nat.add_right_comm i 1 n, Nat.add_assoc i n 1]

theorem Sound.mainStep [DecidableEq W] {process : Process Addr W} (h : Sound log hash process) :
    Sound log hash (mainStep log hash process) := by
  obtain ⟨server, created, requestHandler, dispatcher, globalNode, stage⟩ := process
  have hprogress := h.progress
  cases stage with
  | creating workers =>
    cases workers with
    | nil => exact ⟨hprogress, fun _ => h.quiet rfl⟩
    | cons worker workers => exact ⟨hprogress, fun _ => h.quiet rfl⟩
  | settingHandler => exact ⟨⟨rfl, Nat.zero_le 256, hprogress⟩, fun _ => h.quiet rfl⟩
  | loading i =>
    obtain ⟨hhandler, hbound, hloaded⟩ := hprogress
    simp only at hhandler hloaded
    by_cases hmore : i < 256
    · simp only [NodeProcess.mainStep, if_pos hmore]
      refine ⟨⟨hhandler, hmore, ?_⟩, fun _ => h.quiet rfl⟩
      simp only [hloaded, loadCommandsLoop_succ, Nat.zero_add]
    · obtain rfl : i = 256 := by omega
      simp only [NodeProcess.mainStep, if_neg hmore]
      refine ⟨⟨hhandler, ?_⟩, fun _ => h.quiet rfl⟩
      simp only [hloaded, loadCommands]
  | publishing =>
    refine ⟨⟨hprogress.1, hprogress.2, rfl⟩, ?_⟩
    intro hserving
    cases hserving
  | serving => exact h

theorem Sound.handler_of_serving {process : Process Addr W} (h : Sound log hash process)
    (hserving : process.stage.isServing = true) :
    process.requestHandler = some (nodeRequestHandler log) ∧
      process.dispatcher = loadCommands nullTable ∧ process.globalNode = some hash := by
  have hprogress := h.progress
  unfold Progress at hprogress
  split at hprogress
  case h_5 => exact hprogress
  all_goals
    rename_i hstage
    rw [hstage] at hserving
    cases hserving

end Progress

/-! ### A server with the complete handler -/

section Simulation

variable (log : Packet → Exec Unit) (hash : CharArray 20)

/-- The handler with the commands loaded and `global_node` set. -/
def fullHandler : Bytes → Exec (Block × Nat) :=
  nodeRequestHandler log (loadCommands nullTable) (some hash)

/-- The server is that of the process, and the process is sound. -/
def Serves (process : Process Addr W) (server : Server Addr W) : Prop :=
  process.server = server ∧ Sound log hash process

variable {log hash}

theorem Sound.serving_of_holding {process : Process Addr W} (h : Sound log hash process)
    {worker : W} {req : UdpRequest Addr}
    (hholding : process.server.workers worker = .holding req) :
    process.stage.isServing = true := by
  by_contra hnot
  exact (h.quiet (Bool.eq_false_iff.mpr hnot)).not_holding hholding

/-- A worker with a request finds the complete handler. -/
theorem Sound.handler_eq {process : Process Addr W} (h : Sound log hash process) {worker : W}
    {req : UdpRequest Addr} (hholding : process.server.workers worker = .holding req) :
    process.handler = fullHandler log hash := by
  obtain ⟨hhandler, hdispatcher, hnode⟩ := h.handler_of_serving (h.serving_of_holding hholding)
  simp only [Process.handler, hhandler, hdispatcher, hnode, fullHandler]

variable [DecidableEq W]

theorem Sound.dropRequest_eq {process : Process Addr W} (h : Sound log hash process)
    (hnone : process.requestHandler = none) (worker : W) : dropRequest process worker = process := by
  have hserving : process.stage.isServing = false := by
    rw [Bool.eq_false_iff]
    intro hserving
    obtain ⟨hhandler, -⟩ := h.handler_of_serving hserving
    rw [hnone] at hhandler
    cases hhandler
  unfold dropRequest
  split
  · rename_i req hholding
    exact absurd hholding (h.quiet hserving).not_holding
  · rfl

theorem mainStep_server (process : Process Addr W) :
    (mainStep log hash process).server = process.server := by
  unfold mainStep
  split
  case h_4 =>
    split
    · rfl
    · rfl
  all_goals rfl

variable [Fintype W]

theorem Sound.setServer {process : Process Addr W} (h : Sound log hash process)
    {requestHandler : Bytes → Exec (Block × Nat)} {move : Move Addr W} {server : Server Addr W}
    (hthread : process.hasThread move = true)
    (hstep : serverStep requestHandler process.server move = .ok ((), server)) :
    Sound log hash { process with server := server } := by
  refine ⟨h.progress, fun hserving => ?_⟩
  rcases hworker : workerOf move with _ | worker
  · simp only [Process.hasThread, hworker, hserving] at hthread
    cases hthread
  · exact (h.quiet hserving).step hworker hstep

/-- A move finds the complete handler, or does not call it. -/
theorem Sound.serverStep_handler {process : Process Addr W} (h : Sound log hash process)
    (move : Move Addr W) :
    serverStep process.handler process.server move =
      serverStep (fullHandler log hash) process.server move := by
  apply serverStep_congr
  intro worker req hholding
  rw [h.handler_eq hholding]

theorem serverMove_follows {process : Process Addr W} (h : Sound log hash process)
    {move : Move Addr W} (hthread : process.hasThread move = true) :
    Follows (serverStep (fullHandler log hash)) (Serves log hash) process.server
      (serverMove process move) := by
  rw [serverMove, h.serverStep_handler]
  rcases hstep : serverStep (fullHandler log hash) process.server move with
    fault | ⟨⟨⟩, server⟩
  · exact ⟨move, hstep⟩
  · exact Or.inr ⟨move, (), server, hstep, rfl, h.setServer hthread hstep⟩

/-- A thread that is there makes a move of the server, or drops nothing. -/
theorem threadMove_eq {process : Process Addr W} (h : Sound log hash process)
    (move : Move Addr W) :
    threadMove process move = serverMove process move ∨ threadMove process move = .ok ((), process) := by
  cases move with
  | handle worker =>
    rw [threadMove]
    split
    · exact Or.inl rfl
    · rename_i hnone
      rw [h.dropRequest_eq (Option.not_isSome_iff_eq_none.mp hnone)]
      exact Or.inr rfl
  | _ => exact Or.inl rfl

theorem processStep_follows {process : Process Addr W} (h : Sound log hash process)
    (move : ProcessMove Addr W) :
    Follows (serverStep (fullHandler log hash)) (Serves log hash) process.server
      (processStep log hash process move) := by
  cases move with
  | main => exact Or.inl ⟨mainStep_server process, h.mainStep⟩
  | thread move =>
    by_cases hthread : process.hasThread move = true
    · rw [processStep, if_pos hthread]
      rcases threadMove_eq h move with heq | heq
      · rw [heq]
        exact serverMove_follows h hthread
      · rw [heq]
        exact Or.inl ⟨rfl, h⟩
    · rw [processStep, if_neg hthread]
      exact Or.inl ⟨rfl, h⟩

theorem sound_run {process : Process Addr W} (h : Sound log hash process)
    {moves : List (ProcessMove Addr W)} {outputs : List Unit} {final : Process Addr W}
    (hrun : run (processStep log hash) process moves = .ok (outputs, final)) :
    Sound log hash final := by
  refine run_invariant (processStep log hash) (Sound log hash) ?_ moves process outputs final h hrun
  intro before move output after hbefore hstep
  have hfollows := processStep_follows hbefore move
  rw [hstep] at hfollows
  rcases hfollows with ⟨-, hafter⟩ | ⟨-, -, -, -, -, hafter⟩
  · exact hafter
  · exact hafter

/-- A worker's call of the handler is a call of the complete one. -/
theorem Sound.handle_eq {process : Process Addr W} (h : Sound log hash process) {worker : W}
    {req : UdpRequest Addr} (hcreated : process.created worker = true)
    (hholding : process.server.workers worker = .holding req) :
    processStep log hash process (.thread (.handle worker)) = (do
      let result ← fullHandler log hash req.data
      return ((), { process with
        server := process.server.setWorker worker (.replying req result.1 result.2) })) := by
  have hthread : process.hasThread (.handle worker) = true := hcreated
  obtain ⟨hsome, -, -⟩ := h.handler_of_serving (h.serving_of_holding hholding)
  have hset : process.requestHandler.isSome = true := by
    rw [hsome]
    rfl
  rw [processStep, if_pos hthread, threadMove, if_pos hset, serverMove, h.handler_eq hholding]
  simp only [serverStep, hholding]
  rcases fullHandler log hash req.data with fault | ⟨output, len⟩
  · rfl
  · rfl

/-- **A node is a server with the complete handler, from its start on.**  Whatever the
    threads do, in every state that a run leads to: the server is in a state that the
    server with the commands loaded and `global_node` set can be in; a worker that has a
    request finds that handler; and as long as the main thread has not entered the
    receive loop, nothing has been received or sent.  A run that faults has a fault of
    that server. -/
theorem process_follows_server (log : Packet → Exec Unit) (hash : CharArray 20) (dummy : Address)
    (buffer : CharArray BUFFER_SIZE) (workers : List W) (moves : List (ProcessMove Addr W)) :
    match run (processStep log hash) (processNew dummy buffer workers) moves with
    | .ok (_, process) =>
        (∃ serverMoves outputs, run (serverStep (fullHandler log hash)) (serverNew dummy buffer)
          serverMoves = .ok (outputs, process.server)) ∧
        (∀ worker req, process.server.workers worker = .holding req →
          process.handler = fullHandler log hash) ∧
        (process.stage.isServing = false →
          process.server.delivered = [] ∧ process.server.sent = [])
    | .error fault =>
        ∃ serverMoves, run (serverStep (fullHandler log hash))
          (serverNew dummy buffer : Server Addr W) serverMoves = .error fault := by
  have hfollows := run_follows (processStep log hash) (serverStep (fullHandler log hash))
    (Serves log hash) (by
      rintro process server move ⟨rfl, hsound⟩
      exact processStep_follows hsound move)
    moves (processNew dummy buffer workers) (serverNew dummy buffer)
    ⟨rfl, sound_new dummy buffer workers⟩
  rcases hrun : run (processStep log hash) (processNew dummy buffer workers) moves with
    fault | ⟨outputs, process⟩
  · simpa only [hrun] using hfollows
  · simp only [hrun] at hfollows
    obtain ⟨serverMoves, outputs', server, hserver, rfl, hsound⟩ := hfollows
    refine ⟨⟨serverMoves, outputs', hserver⟩, fun worker req => hsound.handler_eq, fun hserving => ?_⟩
    exact ⟨(hsound.quiet hserving).unheard, (hsound.quiet hserving).silent⟩

end Simulation

/-! ### What a node says -/

/-- The datagram is malformed, or the log line of its packet fits. -/
def Loggable (data : Bytes) : Prop :=
  ∀ request, packetFromBytes data = .ok (some request) → FitsLogLine request

/-- The packet due to a request; nothing for a malformed datagram. -/
def replyFor (hash : CharArray 20) (data : Bytes) : Bytes :=
  match packetFromBytes data with
  | .ok (some request) => wire (replyTo hash request)
  | _ => []

theorem fullHandler_of_loggable {data : Bytes} (h : Loggable data) (hash : CharArray 20) :
    ∃ output len, fullHandler renderLog hash data = .ok (output, len) ∧
      load output len = .ok (replyFor hash data) := by
  have hreply : replyBytes renderLog (loadCommands nullTable) (some hash) data =
      .ok (replyFor hash data) := by
    rcases packetFromBytes_cases data with ⟨-, hnone⟩ | ⟨-, request, hsome, -⟩
    · rw [replyBytes_of_rejected renderLog _ hash hnone, replyFor, hnone]
    · rw [replyBytes, nodeRequestHandler_renderLog _ _ hsome, if_pos (h request hsome), replyFor,
        hsome]
      exact replyBytes_of_accepted nullTable hash hsome
  obtain ⟨⟨output, len⟩, hhandler, hload⟩ := bind_eq_ok hreply
  exact ⟨output, len, hhandler, hload⟩

theorem fullHandler_of_not_loggable {data : Bytes} (h : ¬ Loggable data) (hash : CharArray 20) :
    fullHandler renderLog hash data = .error (.outOfBounds 512) := by
  simp only [Loggable, not_forall] at h
  obtain ⟨request, hsome, hlong⟩ := h
  rw [fullHandler, nodeRequestHandler_renderLog _ _ hsome, if_neg hlong]

section Survival

variable [Fintype W]

/-- What a worker has was delivered. -/
theorem mem_delivered_of_held {requestHandler : Bytes → Exec (Block × Nat)}
    {server : Server Addr W} {requests : List (UdpRequest Addr)}
    (h : Conserved requestHandler server requests) {datagram : Datagram Addr} {worker : W}
    (hheld : datagram ∈ (server.workers worker).held) : datagram ∈ server.delivered := by
  have hsum : datagram ∈ ∑ w, (server.workers w).held :=
    Multiset.mem_sum.mpr ⟨worker, Finset.mem_univ worker, hheld⟩
  have hreceived : datagram ∈ (server.received : Multiset (Datagram Addr)) := by
    rw [h.parts]
    exact Multiset.mem_add.mpr (Or.inl (Multiset.mem_add.mpr (Or.inr hsum)))
  rw [h.delivered]
  exact List.mem_append_left _ (Multiset.mem_coe.mp hreceived)

variable [DecidableEq W]

/-- Only `recvfrom` adds to what was delivered, and it adds what arrived. -/
theorem delivered_step {requestHandler : Bytes → Exec (Block × Nat)} {server server' : Server Addr W}
    {move : Move Addr W} (hstep : serverStep requestHandler server move = .ok ((), server'))
    {datagram : Datagram Addr} (hmem : datagram ∈ server'.delivered) :
    datagram ∈ server.delivered ∨ ∃ bytes, move = .recvfrom (some (datagram.1, bytes)) ∧
      datagram.2 = bytes.take BUFFER_SIZE := by
  rw [(serverStep_records hstep).1] at hmem
  rcases List.mem_append.mp hmem with hold | hnew
  · exact Or.inl hold
  · cases move with
    | recvfrom arrived =>
      rcases arrived with _ | ⟨addr, bytes⟩
      · cases hnew
      · simp only [arrival] at hnew
        split at hnew
        · rw [List.mem_singleton.mp hnew]
          exact Or.inr ⟨_, rfl, rfl⟩
        · cases hnew
    | _ => cases hnew

/-- What arrives by a move; before the main thread serves, nothing does. -/
def processArrival (process : Process Addr W) : ProcessMove Addr W → List (Datagram Addr)
  | .main => []
  | .thread move => if process.hasThread move then arrival process.server move else []

theorem serverMove_delivered {process next : Process Addr W} {move : Move Addr W} {output : Unit}
    (h : serverMove process move = .ok (output, next)) :
    next.server.delivered = process.server.delivered ++ arrival process.server move := by
  obtain ⟨⟨_, server⟩, hstep, h⟩ := bind_eq_ok h
  cases h
  exact (serverStep_records hstep).1

omit [Fintype W] in
theorem dropRequest_delivered (process : Process Addr W) (worker : W) :
    (dropRequest process worker).server.delivered = process.server.delivered := by
  unfold dropRequest
  split
  · rfl
  · rfl

theorem processStep_delivered {log : Packet → Exec Unit} {hash : CharArray 20}
    {process next : Process Addr W} {move : ProcessMove Addr W} {output : Unit}
    (h : processStep log hash process move = .ok (output, next)) :
    next.server.delivered = process.server.delivered ++ processArrival process move := by
  cases move with
  | main =>
    cases h
    rw [mainStep_server]
    exact (List.append_nil _).symm
  | thread move =>
    by_cases hthread : process.hasThread move = true
    · rw [processStep, if_pos hthread] at h
      rw [processArrival, if_pos hthread]
      cases move with
      | handle worker =>
        by_cases hset : process.requestHandler.isSome = true
        · rw [threadMove, if_pos hset] at h
          exact serverMove_delivered h
        · rw [threadMove, if_neg hset] at h
          cases h
          rw [dropRequest_delivered]
          exact (List.append_nil _).symm
      | _ => exact serverMove_delivered h
    · rw [processStep, if_neg hthread] at h
      cases h
      rw [processArrival, if_neg hthread, List.append_nil]

/-- The process is sound, its server conserves the requests, and the log lines of all
    that was delivered fit. -/
def Survives (hash : CharArray 20) (process : Process Addr W) : Prop :=
  Sound renderLog hash process ∧ (∃ requests, Usable process.server requests ∧
    Conserved (fullHandler renderLog hash) process.server requests) ∧
    ∀ datagram ∈ process.server.delivered, Loggable datagram.2

/-- A log line that does not fit cannot arrive by this move. -/
def Admits : ProcessMove Addr W → Prop
  | .thread (.recvfrom (some (_, datagram))) => Loggable (datagram.take BUFFER_SIZE)
  | _ => True

theorem serverStep_survives {hash : CharArray 20} {server : Server Addr W}
    {requests : List (UdpRequest Addr)} (husable : Usable server requests)
    (hconserved : Conserved (fullHandler renderLog hash) server requests)
    (hloggable : ∀ datagram ∈ server.delivered, Loggable datagram.2) (move : Move Addr W) :
    ∃ server' requests', serverStep (fullHandler renderLog hash) server move = .ok ((), server') ∧
      Usable server' requests' ∧ Conserved (fullHandler renderLog hash) server' requests' := by
  rcases serverStep_effect (fullHandler renderLog hash) husable move with
    ⟨server', requests', hrun, husable', heffect⟩ | ⟨worker, req, fault, hholding, hfault, -⟩ |
    ⟨worker, req, output, len, fault, hreplying, hfault, -⟩
  · exact ⟨server', requests', hrun, husable', heffect.conserved hconserved⟩
  · have hheld : req.datagram ∈ (server.workers worker).held := by
      rw [hholding]
      exact Multiset.mem_singleton_self _
    obtain ⟨output, len, hok, -⟩ :=
      fullHandler_of_loggable (hloggable _ (mem_delivered_of_held hconserved hheld)) hash
    have hclash := hfault.symm.trans hok
    cases hclash
  · have hheld : req.datagram ∈ (server.workers worker).held := by
      rw [hreplying]
      exact Multiset.mem_singleton_self _
    obtain ⟨output', len', hok, hload⟩ :=
      fullHandler_of_loggable (hloggable _ (mem_delivered_of_held hconserved hheld)) hash
    have hsame := (hconserved.handled worker req output len hreplying).symm.trans hok
    cases hsame
    rw [hload] at hfault
    cases hfault

theorem Survives.setServer {hash : CharArray 20} {process : Process Addr W}
    (h : Survives hash process) {move : Move Addr W} (hthread : process.hasThread move = true)
    (hadmits : Admits (.thread move)) :
    ∃ next, serverMove process move = .ok ((), next) ∧ Survives hash next := by
  obtain ⟨hsound, ⟨requests, husable, hconserved⟩, hloggable⟩ := h
  obtain ⟨server', requests', hstep, husable', hconserved'⟩ :=
    serverStep_survives husable hconserved hloggable move
  refine ⟨{ process with server := server' }, ?_, hsound.setServer hthread hstep,
    ⟨requests', husable', hconserved'⟩, fun datagram hmem => ?_⟩
  · rw [serverMove, hsound.serverStep_handler, hstep]
    rfl
  · rcases delivered_step hstep hmem with hold | ⟨bytes, rfl, htake⟩
    · exact hloggable datagram hold
    · rw [htake]
      exact hadmits

theorem Survives.step {hash : CharArray 20} {process : Process Addr W} (h : Survives hash process)
    {move : ProcessMove Addr W} (hadmits : Admits move) :
    ∃ next, processStep renderLog hash process move = .ok ((), next) ∧ Survives hash next := by
  cases move with
  | main =>
    refine ⟨_, rfl, h.1.mainStep, ?_⟩
    rw [mainStep_server]
    exact h.2
  | thread move =>
    by_cases hthread : process.hasThread move = true
    · rw [processStep, if_pos hthread]
      rcases threadMove_eq h.1 move with heq | heq
      · rw [heq]
        exact h.setServer hthread hadmits
      · rw [heq]
        exact ⟨process, rfl, h⟩
    · rw [processStep, if_neg hthread]
      exact ⟨process, rfl, h⟩

theorem survives_run {hash : CharArray 20} {process : Process Addr W} (h : Survives hash process)
    {moves : List (ProcessMove Addr W)} (hadmits : ∀ move ∈ moves, Admits move) :
    ∃ outputs final, run (processStep renderLog hash) process moves = .ok (outputs, final) ∧
      Survives hash final := by
  obtain ⟨final, hrun, hfinal⟩ := run_refines (processStep renderLog hash)
    (fun (_ : Unit) (_ : ProcessMove Addr W) => ((), ())) (fun process _ => Survives hash process)
    Admits (fun process _ move hprocess hmove => hprocess.step hmove) moves process () h hadmits
  exact ⟨_, final, hrun, hfinal⟩

theorem sent_of_replies {hash : CharArray 20} {answered : List (Datagram Addr)}
    {sent : List (Addr × Bytes)}
    (h : List.Forall₂ (IsReply (fullHandler renderLog hash)) answered sent)
    (hloggable : ∀ datagram ∈ answered, Loggable datagram.2) :
    sent = answered.map fun datagram => (datagram.1, replyFor hash datagram.2) := by
  induction h with
  | nil => rfl
  | @cons datagram message answered sent hreply _ ih =>
    obtain ⟨hsource, output, len, hhandler, hload⟩ := hreply
    obtain ⟨output', len', hhandler', hload'⟩ :=
      fullHandler_of_loggable (hloggable datagram List.mem_cons_self) hash
    rw [hhandler] at hhandler'
    cases hhandler'
    have hbytes : message.2 = replyFor hash datagram.2 := Except.ok.inj (hload.symm.trans hload')
    rw [List.map_cons, ← ih fun other hother => hloggable other (List.mem_cons_of_mem _ hother),
      ← hsource, ← hbytes]

omit [DecidableEq W] in
theorem survives_new (hash : CharArray 20) (dummy : Address) (buffer : CharArray BUFFER_SIZE)
    (workers : List W) : Survives hash (processNew dummy buffer workers : Process Addr W) := by
  refine ⟨sound_new dummy buffer workers, ⟨[], usable_new dummy buffer, ?_⟩, ?_⟩
  · exact conserved_new _ dummy buffer
  · intro datagram hmem
    cases hmem

omit [DecidableEq W] in
theorem Survives.delivered_of_answered {hash : CharArray 20} {process : Process Addr W}
    (h : Survives hash process) {datagram : Datagram Addr}
    (hmem : datagram ∈ process.server.answered) : datagram ∈ process.server.delivered := by
  obtain ⟨-, ⟨requests, -, hconserved⟩, -⟩ := h
  have hreceived : datagram ∈ (process.server.received : Multiset (Datagram Addr)) := by
    rw [hconserved.parts]
    exact Multiset.mem_add.mpr (Or.inr (Multiset.mem_coe.mpr hmem))
  rw [hconserved.delivered]
  exact List.mem_append_left _ (Multiset.mem_coe.mp hreceived)

omit [DecidableEq W] in
theorem Survives.sent_eq {hash : CharArray 20} {process : Process Addr W}
    (h : Survives hash process) :
    process.server.sent = process.server.answered.map fun datagram =>
      (datagram.1, replyFor hash datagram.2) := by
  obtain ⟨requests, -, hconserved⟩ := h.2.1
  exact sent_of_replies hconserved.replies fun datagram hmem =>
    h.2.2 datagram (h.delivered_of_answered hmem)

/-- **A node survives exactly what it can log.**  If no datagram arrives whose log line
    is too long, then no interleaving of the start-up, the receive loop and the workers
    faults; the datagrams that have arrived are those that the loop has passed on and the
    one it may have in hand, those passed on are queued, held by a worker or answered, and
    the messages sent are, in order, the packets due to the datagrams answered, each to
    its own source.  In every state that a run leads to, a worker's call of the handler
    returns exactly if the log line of its request fits. -/
theorem process_survives (hash : CharArray 20) (dummy : Address) (buffer : CharArray BUFFER_SIZE)
    (workers : List W) :
    (∀ moves : List (ProcessMove Addr W), (∀ move ∈ moves, Admits move) →
      ∃ (outputs : List Unit) (process : Process Addr W) (requests : List (UdpRequest Addr)),
        run (processStep renderLog hash)
          (processNew dummy buffer workers) moves = .ok (outputs, process) ∧
        Holds process.server.heap process.server.queue (requests.map some) ∧
        observed (processStep renderLog hash) processArrival (processNew dummy buffer workers) moves =
          process.server.received ++ process.server.inHand ∧
        (process.server.received : Multiset (Datagram Addr)) =
          (requests.map UdpRequest.datagram : List (Datagram Addr)) +
            ∑ w, (process.server.workers w).held +
              (process.server.answered : Multiset (Datagram Addr)) ∧
        process.server.sent = process.server.answered.map fun datagram =>
          (datagram.1, replyFor hash datagram.2)) ∧
    ∀ (moves : List (ProcessMove Addr W)) outputs process, run (processStep renderLog hash)
        (processNew dummy buffer workers) moves = .ok (outputs, process) →
      ∀ worker req, process.created worker = true →
        process.server.workers worker = .holding req →
        ((∃ next, processStep renderLog hash process (.thread (.handle worker)) = .ok next) ↔
          Loggable req.data) := by
  constructor
  · intro moves hadmits
    obtain ⟨outputs, process, hrun, hsurvives⟩ :=
      survives_run (survives_new hash dummy buffer workers) hadmits
    obtain ⟨-, ⟨requests, husable, hconserved⟩, -⟩ := id hsurvives
    refine ⟨outputs, process, requests, hrun, husable.holds, ?_, hconserved.parts,
      hsurvives.sent_eq⟩
    have harrived := run_observed (processStep renderLog hash) processArrival
      (fun process => process.server.delivered)
      (fun _ _ _ _ hstep => processStep_delivered hstep) moves _ outputs process hrun
    rw [← hconserved.delivered, harrived]
    rfl
  · intro moves outputs process hrun worker req hcreated hholding
    have hsound : Sound renderLog hash process := sound_run (sound_new dummy buffer workers) hrun
    rw [hsound.handle_eq hcreated hholding]
    by_cases hloggable : Loggable req.data
    · obtain ⟨output, len, hok, -⟩ := fullHandler_of_loggable hloggable hash
      rw [hok]
      exact iff_of_true ⟨_, rfl⟩ hloggable
    · rw [fullHandler_of_not_loggable hloggable]
      refine iff_of_false ?_ hloggable
      rintro ⟨next, hnext⟩
      cases hnext

end Survival

/-- The node starts with one worker and gets a ping, which is answered. -/
def answeredPing : List (ProcessMove Nat Unit) :=
  List.replicate 262 .main ++
    [.thread (.recvfrom (some (7, pingBytes))), .thread (.enqueue 1 none), .thread (.dequeue ()),
      .thread (.handle ()), .thread (.sendto ())]

theorem loggable_pingBytes : Loggable (pingBytes.take BUFFER_SIZE) := by
  intro request hrequest
  have hping : pingBytes.take BUFFER_SIZE = pingBytes := List.take_of_length_le (by decide)
  rw [hping] at hrequest
  cases hrequest
  decide

theorem admits_answeredPing : ∀ move ∈ answeredPing, Admits move := by
  intro move hmove
  simp only [answeredPing, List.mem_append, List.mem_replicate, List.mem_cons, List.not_mem_nil,
    or_false] at hmove
  rcases hmove with ⟨-, rfl⟩ | rfl | rfl | rfl | rfl | rfl
  · trivial
  · exact loggable_pingBytes
  all_goals trivial

theorem process_survives_answeredPing :
    ∃ (outputs : List Unit) (process : Process Nat Unit) (requests : List (UdpRequest Nat)),
      run (processStep renderLog zeroHash) (processNew 0 zeroBuffer [()]) answeredPing =
        .ok (outputs, process) ∧
      Holds process.server.heap process.server.queue (requests.map some) ∧
      observed (processStep renderLog zeroHash) processArrival (processNew 0 zeroBuffer [()])
        answeredPing = process.server.received ++ process.server.inHand ∧
      (process.server.received : Multiset (Datagram Nat)) =
        (requests.map UdpRequest.datagram : List (Datagram Nat)) +
          ∑ w, (process.server.workers w).held +
            (process.server.answered : Multiset (Datagram Nat)) ∧
      process.server.sent = process.server.answered.map fun datagram =>
        (datagram.1, replyFor zeroHash datagram.2) :=
  (process_survives zeroHash 0 zeroBuffer [()]).1 answeredPing admits_answeredPing

end Cdht.NodeProcess
