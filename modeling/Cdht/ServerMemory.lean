/-
  Cdht/ServerMemory.lean
  ======================
  **The memory of the server** (`src/transfer/udp.c`, with the request handler of
  `src/node/request_handler.c`).

  `UdpServer.lean` takes a request for the value that its pointers lead to.  Here the
  queue and the workers hold pointers: `udp_server_run` allocates a request and a block
  for its data, and a worker passes the block to the handler, which allocates an answer,
  and frees the answer, the block and the request after `sendto`.  The moves are those
  of `UdpServer.lean`.  The nodes of the queue stay on the heap of `WorkQueue.lean`.

  Every interleaving goes as it does there, and what is live is two objects for each
  request that is queued or held and three for each that is being answered
  (`server_memory_exact`).  So a server leaks nothing, and uses and frees nothing that it
  has freed before, however long it runs.
-/
import Cdht.NodeProcess
import Cdht.PacketMemory
import Mathlib.Algebra.BigOperators.Ring.Finset
import Mathlib.Algebra.Order.BigOperators.Group.Finset
import Mathlib.Algebra.Order.BigOperators.Group.List

namespace Cdht.ServerMemory

open Cdht.Memory Cdht.Machine Cdht.LinkedCells Cdht.WorkQueue Cdht.Ownership Cdht.PacketMemory
open Cdht.UdpServer (UdpRequest Receiver Move BUFFER_SIZE recvfrom recvfrom_le serverStep serverNew
  serverStep_recvfrom serverStep_enqueue recvfrom_pos_iff sum_update_worker
  arrivals messages run_conserved delivered_eq_arrivals sent_eq_messages zeroBuffer)
open Cdht.NodeProcess (fullHandler)
open Cdht.RequestHandler (renderLog nullTable pongPacket)
open Cdht.PacketCodec (pingBytes wire)
open Cdht.Handshake (zeroHash pingOf pingBytes_accepted)

variable {Addr W : Type}

/-! ### The threads -/

/-- A worker, with pointers to its request and to the output of the handler. -/
inductive Worker where
  | awake
  | asleep
  | woken
  | holding (req : Address)
  | replying (req output : Address) (len : Nat)

def Worker.isAsleep : Worker → Bool
  | .asleep => true
  | _ => false

structure Server (Addr W : Type) where
  heap : Heap (Option Address)
  queue : XQueue
  memory : Ledger (Object Addr)
  buffer : CharArray BUFFER_SIZE
  receiver : Receiver Addr
  workers : W → Worker
  sent : List (Addr × Bytes)

/-- The server at the start of `udp_server_run`, when no request is allocated. -/
def memoryNew (dummy : Address) (buffer : CharArray BUFFER_SIZE) : Server Addr W where
  heap := (xqueueNew none dummy).1
  queue := (xqueueNew (none : Option Address) dummy).2
  memory := ⟨[], 0, List.nodup_nil⟩
  buffer := buffer
  receiver := .receiving
  workers := fun _ => .awake
  sent := []

def loadRequest (memory : Ledger (Object Addr)) (pointer : Address) : Exec (RequestCell Addr) := do
  match ← fetch memory pointer with
  | .request cell => return cell
  | _ => .error .uninitialised

section Moves

variable [DecidableEq W]

def Server.setWorker (server : Server Addr W) (worker : W) (state : Worker) : Server Addr W :=
  { server with workers := Function.update server.workers worker state }

/-- `pthread_cond_signal`, as in `UdpServer.lean`. -/
def signal [Fintype W] (workers : W → Worker) : Option W → Option (W → Worker)
  | some worker =>
      if (workers worker).isAsleep then some (Function.update workers worker .woken) else none
  | none => if ∀ worker, ¬ (workers worker).isAsleep then some workers else none

/-- `xqueue_dequeue` in `__worker_function`, from a test of the queue on. -/
def workerDequeue (server : Server Addr W) (worker : W) : Exec (Server Addr W) := do
  let (taken, heap, queue) ← xqueueDequeue server.heap server.queue
  let server := { server with heap := heap, queue := queue }
  match taken with
  | none => return server.setWorker worker .asleep
  | some none => return server.setWorker worker .awake
  | some (some req) => return server.setWorker worker (.holding req)

variable [Fintype W] (allocator : Allocator (Object Addr)) (hash : CharArray 20)

/-- The moves of `serverStep`, with the allocations of the source.  The handler is set,
    and its output is never NULL. -/
def memoryStep : Step (Server Addr W) (Move Addr W) Unit
  | server, .recvfrom arrival =>
      match server.receiver, arrival with
      | .receiving, some (addr, datagram) =>
          let (buffer, n) := recvfrom server.buffer datagram
          if 0 < n then .ok ((), { server with buffer := buffer, receiver := .holding addr n })
          else .ok ((), { server with buffer := buffer })
      | _, _ => .ok ((), server)
  | server, .enqueue node choice =>
      match server.receiver, signal server.workers choice, server.heap node with
      | .holding addr n, some workers, none => do
          let (req, memory) := allocate allocator server.memory .unset
          let (data, memory) := allocate allocator memory (.chars (malloc n))
          let bytes ← readArray server.buffer.val 0 n
          let memory ← overwrite memory data (.chars (filled bytes.val 0))
          -- the three fields of the request are set by now
          let memory ← overwrite memory req (.request ⟨addr, n, data⟩)
          let (heap, queue) ← xqueueEnqueue server.heap server.queue node (some req)
          return ((), { server with
            heap := heap
            queue := queue
            memory := memory
            receiver := .receiving
            workers := workers })
      | _, _, _ => .ok ((), server)
  | server, .dequeue worker =>
      match server.workers worker with
      | .awake | .woken => do
          let server ← workerDequeue server worker
          return ((), server)
      | _ => .ok ((), server)
  | server, .wakeUp worker =>
      match server.workers worker with
      | .asleep => .ok ((), server.setWorker worker .woken)
      | _ => .ok ((), server)
  | server, .handle worker =>
      match server.workers worker with
      | .holding req => do
          let cell ← loadRequest server.memory req
          let ((output, len), memory) ←
            nodeRequestHandler allocator hash server.memory cell.data cell.dataLength
          return ((), Server.setWorker { server with memory := memory } worker
            (.replying req output len))
      | _ => .ok ((), server)
  | server, .sendto worker =>
      match server.workers worker with
      | .replying req output len => do
          let cell ← loadRequest server.memory req
          let block ← loadChars server.memory output
          let message ← load block len
          let memory ← free server.memory output
          let memory ← free memory cell.data
          let memory ← free memory req
          return ((), { server with
            memory := memory
            workers := Function.update server.workers worker .awake
            sent := server.sent ++ [(cell.addr, message)] })
      | _ => .ok ((), server)

end Moves

/-! ### Requests in memory -/

/-- A request, with the pointers to it and to its data. -/
structure Placed (Addr : Type) where
  pointer : Address
  data : Address
  req : UdpRequest Addr

def Placed.objects (placed : Placed Addr) : Multiset (Address × Object Addr) :=
  (placed.pointer, .request ⟨placed.req.addr, placed.req.dataLength, placed.data⟩) ::ₘ
    {(placed.data, .chars (filled placed.req.data 0))}

theorem Placed.objects_add (placed : Placed Addr) (rest : Multiset (Address × Object Addr)) :
    placed.objects + rest =
      (placed.pointer, .request ⟨placed.req.addr, placed.req.dataLength, placed.data⟩) ::ₘ
        (placed.data, .chars (filled placed.req.data 0)) ::ₘ rest := by
  rw [objects, Multiset.cons_add, Multiset.singleton_add]

theorem Placed.data_mem (placed : Placed Addr) :
    (placed.data, .chars (filled placed.req.data 0)) ∈ placed.objects :=
  Multiset.mem_cons_of_mem (Multiset.mem_singleton_self _)

theorem Placed.loadRequest_eq (placed : Placed Addr) {memory : Ledger (Object Addr)}
    {objects : Multiset (Address × Object Addr)} (h : Owns memory objects)
    (hown : placed.objects ≤ objects) :
    loadRequest memory placed.pointer =
      .ok ⟨placed.req.addr, placed.req.dataLength, placed.data⟩ := by
  have hfetch := h.fetch (Multiset.mem_of_le hown (Multiset.mem_cons_self _ _))
  simp only [loadRequest, hfetch, ok_bind, pure_eq_ok]

/-- A worker as both servers see it. -/
inductive PlacedWorker (Addr : Type) where
  | awake
  | asleep
  | woken
  | holding (placed : Placed Addr)
  | replying (placed : Placed Addr) (output : Address) (block : Block) (len : Nat)

def PlacedWorker.inMemory : PlacedWorker Addr → Worker
  | .awake => .awake
  | .asleep => .asleep
  | .woken => .woken
  | .holding placed => .holding placed.pointer
  | .replying placed output _ len => .replying placed.pointer output len

def PlacedWorker.value : PlacedWorker Addr → UdpServer.Worker Addr
  | .awake => .awake
  | .asleep => .asleep
  | .woken => .woken
  | .holding placed => .holding placed.req
  | .replying placed _ block len => .replying placed.req block len

/-- What a worker has to free. -/
def PlacedWorker.objects : PlacedWorker Addr → Multiset (Address × Object Addr)
  | .holding placed => placed.objects
  | .replying placed output block _ => (output, .chars block) ::ₘ placed.objects
  | _ => 0

theorem isAsleep_value (worker : PlacedWorker Addr) :
    worker.value.isAsleep = worker.inMemory.isAsleep := by
  cases worker with
  | _ => rfl

theorem objects_of_isAsleep {worker : PlacedWorker Addr} (h : worker.inMemory.isAsleep) :
    worker.objects = 0 := by
  cases worker with
  | asleep => rfl
  | _ => cases h

/-- **Two servers that go together.**  They are linked alike, and the pending requests
    are those at the pointers in the queue. -/
structure Alike (server : Server Addr W) (value : UdpServer.Server Addr W)
    (pending : List (Placed Addr)) (workers : W → PlacedWorker Addr) : Prop where
  pointers : Holds server.heap server.queue (pending.map fun placed => some placed.pointer)
  requests : Holds value.heap value.queue (pending.map fun placed => some placed.req)
  linked : shape server.heap = shape value.heap
  queue : server.queue = value.queue
  buffer : server.buffer = value.buffer
  receiver : server.receiver = value.receiver
  bound : ∀ addr n, value.receiver = .holding addr n → n ≤ BUFFER_SIZE
  inMemory : server.workers = fun w => (workers w).inMemory
  values : value.workers = fun w => (workers w).value
  sent : server.sent = value.sent

/-- The objects of the requests are all that is live. -/
structure Represents [Fintype W] (server : Server Addr W) (value : UdpServer.Server Addr W)
    (pending : List (Placed Addr)) (workers : W → PlacedWorker Addr) : Prop
    extends Alike server value pending workers where
  owns : Owns server.memory ((pending.map Placed.objects).sum + ∑ w, (workers w).objects)

theorem Alike.unused_iff {server : Server Addr W} {value : UdpServer.Server Addr W}
    {pending : List (Placed Addr)} {workers : W → PlacedWorker Addr}
    (h : Alike server value pending workers) (node : Address) :
    server.heap node = none ↔ value.heap node = none := by
  have hsame := congrFun h.linked node
  rw [shape, shape] at hsame
  rw [← Option.map_eq_none_iff, hsame, Option.map_eq_none_iff]

theorem represents_new [Fintype W] (dummy : Address) (buffer : CharArray BUFFER_SIZE) :
    Represents (memoryNew dummy buffer : Server Addr W) (serverNew dummy buffer) []
      fun _ => .awake := by
  refine ⟨⟨holds_new none dummy, holds_new none dummy, ?_, rfl, rfl, rfl, ?_, rfl, rfl, rfl⟩, ?_⟩
  · simp only [memoryNew, serverNew, xqueueNew, shape_placeCell]
    rfl
  · intro addr n hholding
    cases hholding
  · simp [Owns, memoryNew, PlacedWorker.objects]

section Parts

variable [DecidableEq W]

theorem inMemory_update (workers : W → PlacedWorker Addr) (worker : W) (state : PlacedWorker Addr) :
    (fun w => (Function.update workers worker state w).inMemory) =
      Function.update (fun w => (workers w).inMemory) worker state.inMemory :=
  Function.comp_update PlacedWorker.inMemory workers worker state

theorem value_update (workers : W → PlacedWorker Addr) (worker : W) (state : PlacedWorker Addr) :
    (fun w => (Function.update workers worker state w).value) =
      Function.update (fun w => (workers w).value) worker state.value :=
  Function.comp_update PlacedWorker.value workers worker state

theorem Alike.setWorker {server : Server Addr W} {value : UdpServer.Server Addr W}
    {pending : List (Placed Addr)} {workers : W → PlacedWorker Addr}
    (h : Alike server value pending workers) (worker : W) (state : PlacedWorker Addr) :
    Alike (server.setWorker worker state.inMemory) (value.setWorker worker state.value) pending
      (Function.update workers worker state) := by
  refine ⟨h.pointers, h.requests, h.linked, h.queue, h.buffer, h.receiver, h.bound, ?_, ?_, h.sent⟩
  · rw [inMemory_update, ← h.inMemory]
    rfl
  · rw [value_update, ← h.values]
    rfl

/-- What the other workers have to free stays, whatever one of them does. -/
theorem exists_rest [Fintype W] (workers : W → PlacedWorker Addr) (worker : W) :
    ∃ rest, ∑ w, (workers w).objects = (workers worker).objects + rest ∧
      ∀ state, ∑ w, (Function.update workers worker state w).objects = state.objects + rest := by
  have hsplit := Finset.add_sum_erase Finset.univ (fun w => (workers w).objects)
    (Finset.mem_univ worker)
  refine ⟨_, hsplit.symm, fun state => ?_⟩
  have hupdate := sum_update_worker PlacedWorker.objects workers worker state
  rw [← hsplit, add_comm, add_assoc, add_left_cancel_iff, add_comm] at hupdate
  exact hupdate

/-- Both servers signal the same worker. -/
theorem signal_agrees [Fintype W] (workers : W → PlacedWorker Addr) (choice : Option W) :
    (signal (fun w => (workers w).inMemory) choice = none ∧
      UdpServer.signal (fun w => (workers w).value) choice = none) ∨
    ∃ workers' : W → PlacedWorker Addr, signal (fun w => (workers w).inMemory) choice =
        some (fun w => (workers' w).inMemory) ∧
      UdpServer.signal (fun w => (workers w).value) choice = some (fun w => (workers' w).value) ∧
      ∑ w, (workers' w).objects = ∑ w, (workers w).objects := by
  cases choice with
  | none =>
    by_cases hnobody : ∀ worker, ¬ (workers worker).inMemory.isAsleep
    · right
      refine ⟨workers, if_pos hnobody, if_pos ?_, rfl⟩
      intro worker
      rw [isAsleep_value]
      exact hnobody worker
    · left
      refine ⟨if_neg hnobody, if_neg ?_⟩
      intro hvalue
      apply hnobody
      intro worker
      rw [← isAsleep_value]
      exact hvalue worker
  | some worker =>
    by_cases hasleep : (workers worker).inMemory.isAsleep
    · right
      obtain ⟨rest, hsum, hupdate⟩ := exists_rest workers worker
      refine ⟨Function.update workers worker .woken, ?_, ?_, ?_⟩
      · rw [inMemory_update]
        exact if_pos hasleep
      · rw [value_update]
        exact if_pos ((isAsleep_value _).trans hasleep)
      · rw [hupdate, hsum, objects_of_isAsleep hasleep]
        rfl
    · left
      refine ⟨if_neg hasleep, if_neg ?_⟩
      rw [← isAsleep_value] at hasleep
      exact hasleep

end Parts

/-! ### One move -/

section Steps

variable [DecidableEq W] [Fintype W] (allocator : Allocator (Object Addr)) (hash : CharArray 20)

def Matches (value : UdpServer.Server Addr W) (server : Server Addr W) : Prop :=
  ∃ pending workers, Represents server value pending workers

/-- The move ends alike for both servers, and they still go together. -/
def MovesAlike (value : UdpServer.Server Addr W) (server : Server Addr W) (move : Move Addr W) :
    Prop :=
  Agrees (serverStep (fullHandler renderLog hash) value move)
    (fun result result' => result'.1 = result.1 ∧ Matches result.2 result'.2)
    (memoryStep allocator hash server move)

variable {server : Server Addr W} {value : UdpServer.Server Addr W} {pending : List (Placed Addr)}
  {workers : W → PlacedWorker Addr} (h : Represents server value pending workers)

include h

omit h in
theorem movesAlike_ok {move : Move Addr W} {value' : UdpServer.Server Addr W}
    (server' : Server Addr W) {pending' : List (Placed Addr)} {workers' : W → PlacedWorker Addr}
    (hvalue : serverStep (fullHandler renderLog hash) value move = .ok ((), value'))
    (hserver : memoryStep allocator hash server move = .ok ((), server'))
    (h' : Represents server' value' pending' workers') :
    MovesAlike allocator hash value server move :=
  agrees_ok ((), server') hvalue hserver ⟨rfl, pending', workers', h'⟩

theorem recvfrom_alike (arrival : Option (UdpServer.Datagram Addr)) :
    MovesAlike allocator hash value server (.recvfrom arrival) := by
  have hreceiver := h.receiver
  rcases hvalue : value.receiver with _ | ⟨addr, n⟩
  · rw [hvalue] at hreceiver
    rcases arrival with _ | ⟨addr, datagram⟩
    · refine movesAlike_ok allocator hash server ?_ ?_ h
      · simp only [serverStep, hvalue]
      · simp only [memoryStep, hreceiver]
    by_cases hempty : datagram = []
    · subst hempty
      have hdropped : serverStep (fullHandler renderLog hash) value (.recvfrom (some (addr, []))) =
          .ok ((), { value with buffer := (recvfrom value.buffer []).1 }) := by
        simp only [serverStep, hvalue]
        rfl
      refine movesAlike_ok allocator hash
        { server with buffer := (recvfrom value.buffer []).1 } hdropped ?_ { h with buffer := rfl }
      simp only [memoryStep, hreceiver, h.buffer]
      rfl
    · refine movesAlike_ok allocator hash
        { server with
          buffer := (recvfrom value.buffer datagram).1
          receiver := .holding addr (recvfrom value.buffer datagram).2 }
        (serverStep_recvfrom _ hvalue addr hempty) ?_
        { h with buffer := rfl, receiver := rfl, bound := ?_ }
      · simp only [memoryStep, hreceiver, h.buffer,
          if_pos ((recvfrom_pos_iff value.buffer datagram).mpr hempty)]
      · intro addr' n' hholding
        cases hholding
        exact recvfrom_le _ _
  · rw [hvalue] at hreceiver
    refine movesAlike_ok allocator hash server ?_ ?_ h
    · simp only [serverStep, hvalue]
    · simp only [memoryStep, hreceiver]

theorem enqueue_alike (node : Address) (choice : Option W) :
    MovesAlike allocator hash value server (.enqueue node choice) := by
  have hreceiver := h.receiver
  rcases hvalue : value.receiver with _ | ⟨addr, n⟩
  · rw [hvalue] at hreceiver
    refine movesAlike_ok allocator hash server ?_ ?_ h
    · simp only [serverStep, hvalue]
    · simp only [memoryStep, hreceiver]
  rw [hvalue] at hreceiver
  rcases signal_agrees workers choice with ⟨hnone, hnone'⟩ | ⟨workers', hsignal, hsignal', hsum⟩
  · refine movesAlike_ok allocator hash server ?_ ?_ h
    · simp only [serverStep, hvalue, h.values, hnone']
    · simp only [memoryStep, hreceiver, h.inMemory, hnone]
  rw [← h.inMemory] at hsignal
  rw [← h.values] at hsignal'
  rcases hnode : value.heap node with _ | cell
  · have hunused := (h.unused_iff node).mpr hnode
    have hn := h.bound addr n hvalue
    have hread : 0 + n ≤ value.buffer.val.length := by
      rw [value.buffer.property, Nat.zero_add]
      exact hn
    -- the request, its data and its node in the queue
    rcases hnew : allocate allocator server.memory .unset with ⟨pointer, memory₁⟩
    rcases hnew' : allocate allocator memory₁ (.chars (malloc n)) with ⟨data, memory₂⟩
    obtain ⟨memory₃, hwrite, h₃⟩ := ((h.owns.allocate hnew).allocate hnew').overwrite
      (.chars (filled (slice value.buffer.val 0 n) 0))
    rw [Multiset.cons_swap] at h₃
    obtain ⟨memory₄, hwrite', h₄⟩ := h₃.overwrite (.request ⟨addr, n, data⟩)
    obtain ⟨heap, queue, hrun, hholds⟩ := xqueueEnqueue_eq h.pointers hunused (some pointer)
    obtain ⟨heap', queue', hrun', hholds'⟩ := xqueueEnqueue_eq h.requests hnode
      (some (⟨addr, n, slice value.buffer.val 0 n, length_slice hread⟩ : UdpRequest Addr))
    rw [h.queue] at hrun
    obtain ⟨hlinked, rfl⟩ := xqueueEnqueue_alike h.linked hrun hrun'
    have hnext : Represents
        { server with
          heap := heap
          queue := queue
          memory := memory₄
          receiver := .receiving
          workers := fun w => (workers' w).inMemory }
        { value with
          heap := heap'
          queue := queue
          receiver := .receiving
          workers := fun w => (workers' w).value
          received := value.received ++ [(addr, slice value.buffer.val 0 n)] }
        (pending ++ [⟨pointer, data, ⟨addr, n, slice value.buffer.val 0 n, length_slice hread⟩⟩])
        workers' :=
      { h with
        pointers := ?_, requests := ?_, linked := hlinked, queue := rfl, receiver := rfl,
        bound := ?_, inMemory := rfl, values := rfl, owns := ?_ }
    refine movesAlike_ok allocator hash _
      (serverStep_enqueue _ _ hvalue hn rfl hsignal' hnode hrun') ?_ hnext
    · simp only [memoryStep, hreceiver, hsignal, hunused, hnew, hnew', h.buffer,
        readArray_eq_ok hread, hwrite, hwrite', h.queue, hrun, ok_bind, pure_eq_ok]
    · rw [List.map_append]
      exact hholds
    · rw [List.map_append]
      exact hholds'
    · intro addr' n' hholding
      cases hholding
    · rw [List.map_append, List.sum_append, hsum, List.map_singleton, List.sum_singleton,
        add_right_comm, add_comm, Placed.objects_add]
      exact h₄
  · have hused : server.heap node ≠ none := by
      rw [Ne, h.unused_iff node, hnode]
      exact Option.some_ne_none cell
    obtain ⟨cell', hcell'⟩ := Option.ne_none_iff_exists'.mp hused
    refine movesAlike_ok allocator hash server ?_ ?_ h
    · simp only [serverStep, hvalue, hsignal', hnode]
    · simp only [memoryStep, hreceiver, hsignal, hcell']

/-- A test of the queue: both workers go to sleep, or take the first request. -/
theorem test_alike {worker : W} (htests : workers worker = .awake ∨ workers worker = .woken) :
    MovesAlike allocator hash value server (.dequeue worker) := by
  obtain ⟨rest, hsum, hupdate⟩ := exists_rest workers worker
  have hobjects : (workers worker).objects = 0 := by
    rcases htests with hworker | hworker
    · rw [hworker]
      rfl
    · rw [hworker]
      rfl
  have howns := h.owns
  rw [hsum, hobjects] at howns
  have hvalue : serverStep (fullHandler renderLog hash) value (.dequeue worker) =
      UdpServer.workerDequeue value worker >>= fun value => .ok ((), value) := by
    rcases htests with hworker | hworker
    · simp only [serverStep, h.values, hworker, PlacedWorker.value, pure_eq_ok]
    · simp only [serverStep, h.values, hworker, PlacedWorker.value, pure_eq_ok]
  have hserver : memoryStep allocator hash server (.dequeue worker) =
      workerDequeue server worker >>= fun server => .ok ((), server) := by
    rcases htests with hworker | hworker
    · simp only [memoryStep, h.inMemory, hworker, PlacedWorker.inMemory, pure_eq_ok]
    · simp only [memoryStep, h.inMemory, hworker, PlacedWorker.inMemory, pure_eq_ok]
  rcases pending with _ | ⟨placed, pending⟩
  · have hsleeps : UdpServer.workerDequeue value worker = .ok (value.setWorker worker .asleep) := by
      simp only [UdpServer.workerDequeue, xqueueDequeue_nil h.requests, ok_bind, pure_eq_ok]
    refine movesAlike_ok allocator hash (server.setWorker worker .asleep)
      (hvalue.trans (by rw [hsleeps]; rfl)) ?_ ⟨h.setWorker worker .asleep, ?_⟩
    · simp only [hserver, workerDequeue, xqueueDequeue_nil h.pointers, ok_bind, pure_eq_ok]
    · rw [hupdate]
      exact howns
  · obtain ⟨heap, queue, hrun, hholds⟩ := xqueueDequeue_cons h.pointers
    obtain ⟨heap', queue', hrun', hholds'⟩ := xqueueDequeue_cons h.requests
    rw [h.queue] at hrun
    obtain ⟨hlinked, rfl⟩ := xqueueDequeue_alike h.linked hrun hrun'
    have htakes : UdpServer.workerDequeue value worker =
        .ok (UdpServer.Server.setWorker { value with heap := heap', queue := queue } worker
          (.holding placed.req)) := by
      simp only [UdpServer.workerDequeue, hrun', ok_bind, pure_eq_ok]
    have hshorter : Alike { server with heap := heap, queue := queue }
        { value with heap := heap', queue := queue } pending workers :=
      { h.toAlike with pointers := hholds, requests := hholds', linked := hlinked, queue := rfl }
    refine movesAlike_ok allocator hash
      (Server.setWorker { server with heap := heap, queue := queue } worker
        (.holding placed.pointer))
      (hvalue.trans (by rw [htakes]; rfl)) ?_ ⟨hshorter.setWorker worker (.holding placed), ?_⟩
    · simp only [hserver, workerDequeue, h.queue, hrun, ok_bind, pure_eq_ok]
    · rw [List.map_cons, List.sum_cons, zero_add] at howns
      rw [hupdate, PlacedWorker.objects, add_left_comm, ← add_assoc]
      exact howns

theorem dequeue_alike (worker : W) :
    MovesAlike allocator hash value server (.dequeue worker) := by
  rcases hworker : workers worker with _ | _ | _ | placed | ⟨placed, output, block, len⟩
  case awake => exact test_alike allocator hash h (.inl hworker)
  case woken => exact test_alike allocator hash h (.inr hworker)
  all_goals
    refine movesAlike_ok allocator hash server ?_ ?_ h
    · simp only [serverStep, h.values, hworker, PlacedWorker.value]
    · simp only [memoryStep, h.inMemory, hworker, PlacedWorker.inMemory]

theorem wakeUp_alike (worker : W) :
    MovesAlike allocator hash value server (.wakeUp worker) := by
  rcases hworker : workers worker with _ | _ | _ | placed | ⟨placed, output, block, len⟩
  case asleep =>
    obtain ⟨rest, hsum, hupdate⟩ := exists_rest workers worker
    have hwakes : serverStep (fullHandler renderLog hash) value (.wakeUp worker) =
        .ok ((), value.setWorker worker .woken) := by
      simp only [serverStep, h.values, hworker, PlacedWorker.value]
    refine movesAlike_ok allocator hash (server.setWorker worker .woken) hwakes ?_
      ⟨h.setWorker worker .woken, ?_⟩
    · simp only [memoryStep, h.inMemory, hworker, PlacedWorker.inMemory]
    · have howns := h.owns
      rw [hsum, hworker] at howns
      rw [hupdate]
      exact howns
  all_goals
    refine movesAlike_ok allocator hash server ?_ ?_ h
    · simp only [serverStep, h.values, hworker, PlacedWorker.value]
    · simp only [memoryStep, h.inMemory, hworker, PlacedWorker.inMemory]

/-- The handler leaves an answer beside the request. -/
theorem handle_alike (worker : W) :
    MovesAlike allocator hash value server (.handle worker) := by
  rcases hworker : workers worker with _ | _ | _ | placed | ⟨placed, output, block, len⟩
  case holding =>
    obtain ⟨rest, hsum, hupdate⟩ := exists_rest workers worker
    have hown : placed.objects ≤ (pending.map Placed.objects).sum + ∑ w, (workers w).objects := by
      rw [hsum, hworker, PlacedWorker.objects, add_left_comm]
      exact Multiset.le_add_right _ _
    have hcell := placed.loadRequest_eq h.owns hown
    have hdata := Multiset.mem_of_le hown placed.data_mem
    have hlength : placed.req.dataLength = placed.req.data.length := placed.req.length_data.symm
    have hagrees := nodeRequestHandler_agrees allocator hash h.owns nullTable hdata
    rw [← hlength] at hagrees
    have hvalue : serverStep (fullHandler renderLog hash) value (.handle worker) =
        fullHandler renderLog hash placed.req.data >>= fun answer =>
          .ok ((), value.setWorker worker (.replying placed.req answer.1 answer.2)) := by
      simp only [serverStep, h.values, hworker, PlacedWorker.value]
      rfl
    have hserver : memoryStep allocator hash server (.handle worker) =
        nodeRequestHandler allocator hash server.memory placed.data placed.req.dataLength >>=
          fun result => .ok ((), Server.setWorker { server with memory := result.2 } worker
            (.replying placed.pointer result.1.1 result.1.2)) := by
      simp only [memoryStep, h.inMemory, hworker, PlacedWorker.inMemory, hcell, ok_bind]
      rfl
    rw [MovesAlike, hvalue, hserver]
    refine hagrees.bind ?_
    rintro ⟨block, len⟩ ⟨⟨output, len'⟩, memory⟩ - ⟨rfl, howns⟩
    have hkept : Alike { server with memory := memory } value pending workers := { h.toAlike with }
    refine agrees_ok ((), _) rfl rfl ⟨rfl, pending, _,
      hkept.setWorker worker (.replying placed output block len'), ?_⟩
    rw [hsum, hworker, PlacedWorker.objects] at howns
    rw [hupdate, PlacedWorker.objects, Multiset.cons_add, Multiset.add_cons]
    exact howns
  all_goals
    refine movesAlike_ok allocator hash server ?_ ?_ h
    · simp only [serverStep, h.values, hworker, PlacedWorker.value]
    · simp only [memoryStep, h.inMemory, hworker, PlacedWorker.inMemory]

/-- Behind `sendto`, the answer, the data and the request are gone. -/
theorem sendto_alike (worker : W) :
    MovesAlike allocator hash value server (.sendto worker) := by
  rcases hworker : workers worker with _ | _ | _ | placed | ⟨placed, output, block, len⟩
  case replying =>
    obtain ⟨rest, hsum, hupdate⟩ := exists_rest workers worker
    have howns := h.owns
    rw [hsum, hworker, PlacedWorker.objects, add_left_comm, Multiset.cons_add] at howns
    have hcell := placed.loadRequest_eq howns
      ((Multiset.le_add_right _ _).trans (Multiset.le_cons_self _ _))
    have hblock := loadChars_eq howns (Multiset.mem_cons_self _ _)
    -- the three frees
    obtain ⟨memory₁, hfree₁, h₁⟩ := howns.free
    rw [Placed.objects_add, Multiset.cons_swap] at h₁
    obtain ⟨memory₂, hfree₂, h₂⟩ := h₁.free
    obtain ⟨memory₃, hfree₃, h₃⟩ := h₂.free
    have hvalue : serverStep (fullHandler renderLog hash) value (.sendto worker) =
        load block len >>= fun message => .ok ((), { value.setWorker worker .awake with
          answered := value.answered ++ [placed.req.datagram]
          sent := value.sent ++ [(placed.req.addr, message)] }) := by
      simp only [serverStep, h.values, hworker, PlacedWorker.value, UdpServer.Server.setWorker,
        pure_eq_ok]
    have hserver : memoryStep allocator hash server (.sendto worker) =
        load block len >>= fun message => .ok ((), { server.setWorker worker .awake with
          memory := memory₃
          sent := server.sent ++ [(placed.req.addr, message)] }) := by
      simp only [memoryStep, h.inMemory, hworker, PlacedWorker.inMemory, hcell, hblock, hfree₁,
        hfree₂, hfree₃, ok_bind, pure_eq_ok, Server.setWorker]
    rw [MovesAlike, hvalue, hserver]
    rcases load block len with fault | message
    · exact agrees_error rfl rfl
    · have hsent : server.sent ++ [(placed.req.addr, message)] =
          value.sent ++ [(placed.req.addr, message)] := by rw [h.sent]
      refine agrees_ok ((), _) rfl rfl ⟨rfl, pending, _,
        { h.toAlike.setWorker worker .awake with sent := hsent }, ?_⟩
      rw [hupdate]
      show Owns memory₃ (_ + (0 + rest))
      rw [zero_add]
      exact h₃
  all_goals
    refine movesAlike_ok allocator hash server ?_ ?_ h
    · simp only [serverStep, h.values, hworker, PlacedWorker.value]
    · simp only [memoryStep, h.inMemory, hworker, PlacedWorker.inMemory]

theorem moves_alike (move : Move Addr W) : MovesAlike allocator hash value server move := by
  cases move with
  | recvfrom arrival => exact recvfrom_alike allocator hash h arrival
  | enqueue node choice => exact enqueue_alike allocator hash h node choice
  | dequeue worker => exact dequeue_alike allocator hash h worker
  | wakeUp worker => exact wakeUp_alike allocator hash h worker
  | handle worker => exact handle_alike allocator hash h worker
  | sendto worker => exact sendto_alike allocator hash h worker

end Steps

/-! ### What is live -/

/-- The number of objects that a worker has to free. -/
def liveObjects : UdpServer.Worker Addr → Nat
  | .holding _ => 2
  | .replying _ _ _ => 3
  | _ => 0

theorem card_objects (worker : PlacedWorker Addr) :
    Multiset.card worker.objects = liveObjects worker.value := by
  cases worker with
  | _ => rfl

theorem liveObjects_le (worker : UdpServer.Worker Addr) :
    liveObjects worker ≤ 3 * Multiset.card worker.held := by
  cases worker with
  | holding req => exact Nat.le_succ 2
  | replying req output len => exact Nat.le_refl 3
  | _ => exact Nat.zero_le _

theorem card_pending (pending : List (Placed Addr)) :
    Multiset.card (pending.map Placed.objects).sum = 2 * pending.length := by
  induction pending with
  | nil => rfl
  | cons placed pending ih =>
    have htwo : Multiset.card placed.objects = 2 := rfl
    rw [List.map_cons, List.sum_cons, Multiset.card_add, ih, htwo, List.length_cons]
    omega

variable [Fintype W]

theorem Represents.length_live {server : Server Addr W} {value : UdpServer.Server Addr W}
    {pending : List (Placed Addr)} {workers : W → PlacedWorker Addr}
    (h : Represents server value pending workers) :
    server.memory.live.length = 2 * pending.length + ∑ w, liveObjects (value.workers w) := by
  have hcard := congrArg Multiset.card h.owns
  rw [Multiset.coe_card, Multiset.card_add, card_pending, Multiset.card_sum] at hcard
  simp only [hcard, card_objects, h.values]

/-! ### Whole runs -/

variable [DecidableEq W]

/-- **A server leaks nothing.**  Whatever arrives and in whatever order the threads move,
    the server with its memory ends as the server on values does: with the same fault of
    the handler, or with the same messages sent.  Then there are two live objects for each
    request that is queued or held by a worker and three for each one that is being
    answered, so at most three for each datagram that has arrived and is not answered. -/
theorem server_memory_exact (allocator : Allocator (Object Addr)) (hash : CharArray 20)
    (dummy : Address) (buffer : CharArray BUFFER_SIZE) (moves : List (Move Addr W)) :
    Agrees (run (serverStep (fullHandler renderLog hash)) (serverNew dummy buffer) moves)
      (fun result result' => result'.2.sent = result.2.sent ∧
        ∃ requests : List (UdpRequest Addr), Holds result.2.heap result.2.queue (requests.map some) ∧
          result'.2.memory.live.length =
            2 * requests.length + ∑ w, liveObjects (result.2.workers w) ∧
          result'.2.memory.live.length +
              3 * (messages (fullHandler renderLog hash) (serverNew dummy buffer) moves).length ≤
            3 * (arrivals (fullHandler renderLog hash) (serverNew dummy buffer) moves).length)
      (run (memoryStep allocator hash) (memoryNew dummy buffer) moves) := by
  have halike := run_agrees (serverStep (fullHandler renderLog hash)) (memoryStep allocator hash)
    Matches (fun value server move ⟨pending, workers, h⟩ => moves_alike allocator hash h move) moves
    _ _ ⟨[], _, represents_new dummy buffer⟩
  refine halike.imp ?_
  rintro ⟨outputs, value⟩ ⟨outputs', server⟩ hrun ⟨-, pending, workers, hrepresents⟩
  have h : Represents server value pending workers := hrepresents
  obtain ⟨requests, husable, hconserved⟩ := run_conserved (fullHandler renderLog hash) hrun
  have hrequests : requests.map some = pending.map fun placed => some placed.req :=
    holds_unique husable.holds h.requests
  have hlength : requests.length = pending.length := by
    have hmap := congrArg List.length hrequests
    rwa [List.length_map, List.length_map] at hmap
  have hlive := h.length_live
  rw [← hlength] at hlive
  -- each request in the queue or with a worker is a datagram without an answer
  have hheld : ∑ w, liveObjects (value.workers w) ≤
      3 * Multiset.card (∑ w, (value.workers w).held) := by
    rw [Multiset.card_sum, Finset.mul_sum]
    exact Finset.sum_le_sum fun w _ => liveObjects_le (value.workers w)
  have hparts := congrArg Multiset.card hconserved.parts
  rw [Multiset.card_add, Multiset.card_add, Multiset.coe_card, Multiset.coe_card, Multiset.coe_card,
    List.length_map] at hparts
  have harrived := congrArg List.length
    ((delivered_eq_arrivals (fullHandler renderLog hash) hrun).symm.trans hconserved.delivered)
  rw [List.length_append] at harrived
  have hsent := congrArg List.length (sent_eq_messages (fullHandler renderLog hash) hrun)
  have hanswered := hconserved.replies.length_eq
  have hbound : server.memory.live.length +
      3 * (messages (fullHandler renderLog hash) (serverNew dummy buffer) moves).length ≤
      3 * (arrivals (fullHandler renderLog hash) (serverNew dummy buffer) moves).length := by
    omega
  exact ⟨h.sent, requests, husable.holds, hlive, hbound⟩

/-- An allocator that goes beyond all addresses in use. -/
def nextAddress : Allocator (Object Addr) where
  address := fun _ live => (live.map Prod.fst).sum + 1
  unused := by
    intro calls live hmem
    exact Nat.not_succ_le_self _ (List.le_sum_of_mem hmem)

/-- A ping arrives and is answered by the only worker. -/
def pingMoves : List (Move Nat Unit) :=
  [.recvfrom (some (7, pingBytes)), .enqueue 1 none, .dequeue (), .handle (), .sendto ()]

theorem fullHandler_pingBytes : fullHandler renderLog zeroHash pingBytes =
    .ok (filled (wire (pongPacket zeroHash 258)) 0, 30) := by
  rw [fullHandler, RequestHandler.nodeRequestHandler_renderLog _ _ pingBytes_accepted,
    if_pos (by decide), RequestHandler.nodeRequestHandler, pingBytes_accepted]
  simp only [ok_bind, RequestHandler.noLog, RequestHandler.dispatch_eq]
  exact PacketCodec.packetToBytes_eq (RequestHandler.replyTo zeroHash (pingOf 258))

theorem server_memory_exact_pingMoves :
    ∃ outputs server, run (memoryStep nextAddress zeroHash) (memoryNew 0 zeroBuffer) pingMoves =
        .ok (outputs, server) ∧
      server.sent = [(7, wire (pongPacket zeroHash 258))] ∧ server.memory.live = [] := by
  have hhandle : ∀ value : UdpServer.Server Nat Unit,
      value.workers () = .holding ⟨7, 26, pingBytes, rfl⟩ →
      serverStep (fullHandler renderLog zeroHash) value (.handle ()) = .ok ((),
        value.setWorker () (.replying ⟨7, 26, pingBytes, rfl⟩
          (filled (wire (pongPacket zeroHash 258)) 0) 30)) := by
    intro value hvalue
    simp only [serverStep, hvalue, fullHandler_pingBytes, ok_bind, pure_eq_ok]
  have hrun : run (serverStep (fullHandler renderLog zeroHash)) (serverNew 0 zeroBuffer) pingMoves =
      .ok (_, _) :=
    run_cons _ (serverStep_recvfrom _ rfl 7 (by decide)) <|
    run_cons _ (serverStep_enqueue _ ⟨7, 26, pingBytes, rfl⟩ rfl (by decide) rfl rfl rfl rfl) <|
    run_cons _ rfl <| run_cons _ (hhandle _ rfl) <| run_cons _ rfl rfl
  obtain ⟨⟨outputs, server⟩, hmemory, hsent, -, -, -, hbound⟩ :=
    (server_memory_exact nextAddress zeroHash 0 zeroBuffer pingMoves).returns _ hrun
  refine ⟨outputs, server, hmemory, hsent, ?_⟩
  rw [← sent_eq_messages _ hrun, ← delivered_eq_arrivals _ hrun] at hbound
  have hone : server.memory.live.length + 3 * 1 ≤ 3 * 1 := hbound
  exact List.length_eq_zero_iff.mp (by omega)

end Cdht.ServerMemory
