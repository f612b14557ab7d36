/-
  Cdht/UdpServer.lean
  ===================
  **The UDP server: one receive loop, any number of workers, one queue**
  (`src/transfer/udp.c`, over `src/helpers/xqueue.c`).

  `udp_server_run` reads datagrams into one buffer, copies each into a request and
  enqueues it; every worker runs `__worker_function`, which dequeues a request, calls
  the request handler and sends what it returns.  A state says where each of these
  threads stands.  A run is any sequence of moves of theirs, so it covers every
  interleaving; a move that a thread cannot make where it stands changes nothing.

  Enqueueing and dequeueing are one step each, as both run under the lock of the
  queue.  `pthread_cond_signal` wakes one of the threads that sleep in
  `pthread_cond_wait`, if there is any; a thread may also wake up by itself.  A woken
  thread has left the wait but does not know yet what the queue holds: its next step
  under the lock is the test of `xqueue_dequeue` again.

  The fields `delivered`, `received`, `answered` and `sent` record what has happened.
  The code reads none of them.
-/
import Cdht.Machine
import Cdht.WorkQueue
import Mathlib.Algebra.BigOperators.Group.Finset.Basic
import Mathlib.Data.Multiset.AddSub

namespace Cdht.UdpServer

open Cdht.Memory Cdht.Machine Cdht.LinkedCells Cdht.WorkQueue

variable {Addr W : Type}

/-! ### The threads -/

/-- The size of `buffer` in `udp_server_run`. -/
def BUFFER_SIZE : Nat := 1024 * 64

abbrev Datagram (Addr : Type) := Addr × Bytes

/-- `udp_request_t`.  `data` is the request's own copy, `data_length` bytes long. -/
structure UdpRequest (Addr : Type) where
  addr : Addr
  dataLength : Nat
  data : Bytes
  length_data : data.length = dataLength

def UdpRequest.datagram (req : UdpRequest Addr) : Datagram Addr := (req.addr, req.data)

/-- The receive loop: before `recvfrom`, or with `n > 0` bytes of a datagram in the
    buffer that are not enqueued yet. -/
inductive Receiver (Addr : Type) where
  | receiving
  | holding (addr : Addr) (n : Nat)

/-- A worker: before a test of the queue, in `pthread_cond_wait`, woken from it, with a
    request before the call of the handler, or with its output before `sendto`. -/
inductive Worker (Addr : Type) where
  | awake
  | asleep
  | woken
  | holding (req : UdpRequest Addr)
  | replying (req : UdpRequest Addr) (output : Block) (len : Nat)

def Worker.isAsleep : Worker Addr → Bool
  | .asleep => true
  | _ => false

def Worker.isWoken : Worker Addr → Bool
  | .woken => true
  | _ => false

structure Server (Addr W : Type) where
  heap : Heap (Option (UdpRequest Addr))
  queue : XQueue
  buffer : CharArray BUFFER_SIZE
  receiver : Receiver Addr
  workers : W → Worker Addr
  delivered : List (Datagram Addr)
  received : List (Datagram Addr)
  answered : List (Datagram Addr)
  sent : List (Addr × Bytes)

/-- The server after `udp_server_new`, at the start of `udp_server_run`: the buffer
    holds anything. -/
def serverNew (dummy : Address) (buffer : CharArray BUFFER_SIZE) : Server Addr W where
  heap := (xqueueNew none dummy).1
  queue := (xqueueNew (none : Option (UdpRequest Addr)) dummy).2
  buffer := buffer
  receiver := .receiving
  workers := fun _ => .awake
  delivered := []
  received := []
  answered := []
  sent := []

/-! ### The moves -/

/-- What `recvfrom` leaves in a buffer, and the number of bytes it returns: the front
    of the datagram, as much as fits. -/
def recvfrom (buffer : CharArray BUFFER_SIZE) (datagram : Bytes) : CharArray BUFFER_SIZE × Nat :=
  (⟨datagram.take BUFFER_SIZE ++ buffer.val.drop (datagram.take BUFFER_SIZE).length, by
    have hlength := buffer.property
    simp only [List.length_append, List.length_take, List.length_drop]
    omega⟩, (datagram.take BUFFER_SIZE).length)

section Moves

variable [DecidableEq W]

def Server.setWorker (server : Server Addr W) (worker : W) (state : Worker Addr) : Server Addr W :=
  { server with workers := Function.update server.workers worker state }

/-- `pthread_cond_signal`: wakes the chosen sleeper; chooses nobody only if nobody
    sleeps.  `none` is a choice that it cannot make. -/
def signal [Fintype W] (workers : W → Worker Addr) : Option W → Option (W → Worker Addr)
  | some worker =>
      if (workers worker).isAsleep then some (Function.update workers worker .woken) else none
  | none => if ∀ worker, ¬ (workers worker).isAsleep then some workers else none

inductive Move (Addr W : Type) where
  | recvfrom (arrival : Option (Datagram Addr))  -- `none`: no datagram, a negative result
  | enqueue (node : Address) (choice : Option W)
  | dequeue (worker : W)
  | wakeUp (worker : W)                          -- without a signal
  | handle (worker : W)
  | sendto (worker : W)

/-- `xqueue_dequeue` in `__worker_function`, from a test of the queue on. -/
def workerDequeue (server : Server Addr W) (worker : W) : Exec (Server Addr W) := do
  let (taken, heap, queue) ← xqueueDequeue server.heap server.queue
  let server := { server with heap := heap, queue := queue }
  match taken with
  | none => return server.setWorker worker .asleep
  | some none => return server.setWorker worker .awake
  | some (some req) => return server.setWorker worker (.holding req)

variable [Fintype W] (requestHandler : Bytes → Exec (Block × Nat))

def serverStep : Step (Server Addr W) (Move Addr W) Unit
  | server, .recvfrom arrival =>
      match server.receiver, arrival with
      | .receiving, some (addr, datagram) =>
          let (buffer, n) := recvfrom server.buffer datagram
          if 0 < n then
            .ok ((), { server with
              buffer := buffer
              receiver := .holding addr n
              delivered := server.delivered ++ [(addr, datagram.take BUFFER_SIZE)] })
          else .ok ((), { server with buffer := buffer })
      | _, _ => .ok ((), server)
  | server, .enqueue node choice =>
      match server.receiver, signal server.workers choice, server.heap node with
      | .holding addr n, some workers, none => do
          let data ← readArray server.buffer.val 0 n
          let req : UdpRequest Addr := ⟨addr, n, data.val, data.property⟩
          let (heap, queue) ← xqueueEnqueue server.heap server.queue node (some req)
          return ((), { server with
            heap := heap
            queue := queue
            receiver := .receiving
            workers := workers
            received := server.received ++ [req.datagram] })
      | _, _, _ => .ok ((), server)
  | server, .dequeue worker =>
      match server.workers worker with
      | .awake | .woken => do
          let server ← workerDequeue server worker
          return ((), server)
      | _ => .ok ((), server)
  | server, .wakeUp worker =>
      match server.workers worker with
      | .asleep => .ok ((), server.setWorker worker .woken)
      | _ => .ok ((), server)
  | server, .handle worker =>
      match server.workers worker with
      | .holding req => do
          let (output, len) ← requestHandler req.data
          return ((), server.setWorker worker (.replying req output len))
      | _ => .ok ((), server)
  | server, .sendto worker =>
      match server.workers worker with
      | .replying req output len => do
          let message ← load output len
          return ((), { server with
            workers := Function.update server.workers worker .awake
            answered := server.answered ++ [req.datagram]
            sent := server.sent ++ [(req.addr, message)] })
      | _ => .ok ((), server)

end Moves

/-! ### What one move does -/

theorem isAsleep_iff {worker : Worker Addr} : worker.isAsleep = true ↔ worker = .asleep := by
  cases worker with
  | asleep => exact iff_of_true rfl rfl
  | _ => exact iff_of_false (fun h => nomatch h) (fun h => nomatch h)

/-- What the receive loop has read but not enqueued yet. -/
def Server.inHand (server : Server Addr W) : List (Datagram Addr) :=
  match server.receiver with
  | .receiving => []
  | .holding addr n => [(addr, slice server.buffer.val 0 n)]

def Worker.Tests (worker : Worker Addr) : Prop := worker = .awake ∨ worker = .woken

/-- What a server needs so that none of its own accesses faults. -/
structure Usable (server : Server Addr W) (requests : List (UdpRequest Addr)) : Prop where
  holds : Holds server.heap server.queue (requests.map some)
  bound : ∀ addr n, server.receiver = .holding addr n → n ≤ BUFFER_SIZE

theorem usable_new (dummy : Address) (buffer : CharArray BUFFER_SIZE) :
    Usable (serverNew dummy buffer : Server Addr W) [] := by
  refine ⟨holds_new none dummy, ?_⟩
  intro addr n hreceiver
  cases hreceiver

section Effects

variable [DecidableEq W]

def Signals (workers workers' : W → Worker Addr) : Prop :=
  ((∀ worker, workers worker ≠ .asleep) ∧ workers' = workers) ∨
    ∃ worker, workers worker = .asleep ∧ workers' = Function.update workers worker .woken

/-- **Everything a move can do** to a server whose queue holds `requests`. -/
inductive Effect (requestHandler : Bytes → Exec (Block × Nat)) (server : Server Addr W)
    (requests : List (UdpRequest Addr)) : Server Addr W → List (UdpRequest Addr) → Prop where
  | idle : Effect requestHandler server requests server requests
  | drops (buffer : CharArray BUFFER_SIZE) (hreceiver : server.receiver = .receiving) :
      Effect requestHandler server requests { server with buffer := buffer } requests
  | receives (buffer : CharArray BUFFER_SIZE) (addr : Addr) (n : Nat)
      (hreceiver : server.receiver = .receiving) (hn : n ≤ BUFFER_SIZE) :
      Effect requestHandler server requests
        { server with
          buffer := buffer
          receiver := .holding addr n
          delivered := server.delivered ++ [(addr, slice buffer.val 0 n)] } requests
  | enqueues (heap : Heap (Option (UdpRequest Addr))) (queue : XQueue)
      (workers : W → Worker Addr) (req : UdpRequest Addr)
      (hinHand : server.inHand = [req.datagram]) (hsignals : Signals server.workers workers) :
      Effect requestHandler server requests
        { server with
          heap := heap
          queue := queue
          receiver := .receiving
          workers := workers
          received := server.received ++ [req.datagram] } (requests ++ [req])
  | sleeps (worker : W) (htests : (server.workers worker).Tests) (hempty : requests = []) :
      Effect requestHandler server requests (server.setWorker worker .asleep) requests
  | takes (heap : Heap (Option (UdpRequest Addr))) (queue : XQueue) (worker : W)
      (req : UdpRequest Addr) (rest : List (UdpRequest Addr))
      (htests : (server.workers worker).Tests) (hrequests : requests = req :: rest) :
      Effect requestHandler server requests
        (Server.setWorker { server with heap := heap, queue := queue } worker (.holding req)) rest
  | wakes (worker : W) (hasleep : server.workers worker = .asleep) :
      Effect requestHandler server requests (server.setWorker worker .woken) requests
  | handles (worker : W) (req : UdpRequest Addr) (output : Block) (len : Nat)
      (hholding : server.workers worker = .holding req)
      (hhandler : requestHandler req.data = .ok (output, len)) :
      Effect requestHandler server requests
        (server.setWorker worker (.replying req output len)) requests
  | sends (worker : W) (req : UdpRequest Addr) (output : Block) (len : Nat) (message : Bytes)
      (hreplying : server.workers worker = .replying req output len)
      (hload : load output len = .ok message) :
      Effect requestHandler server requests
        { server with
          workers := Function.update server.workers worker .awake
          answered := server.answered ++ [req.datagram]
          sent := server.sent ++ [(req.addr, message)] } requests

theorem slice_recvfrom (buffer : CharArray BUFFER_SIZE) (datagram : Bytes) :
    slice (recvfrom buffer datagram).1.val 0 (recvfrom buffer datagram).2 =
      datagram.take BUFFER_SIZE := by
  simp only [recvfrom, slice, List.drop_zero, List.take_left]

theorem recvfrom_le (buffer : CharArray BUFFER_SIZE) (datagram : Bytes) :
    (recvfrom buffer datagram).2 ≤ BUFFER_SIZE := by
  simp only [recvfrom, List.length_take]
  omega

theorem signals_of_signal [Fintype W] {workers workers' : W → Worker Addr} {choice : Option W}
    (h : signal workers choice = some workers') : Signals workers workers' := by
  cases choice with
  | none =>
    simp only [signal] at h
    split at h
    · rename_i hnobody
      refine Or.inl ⟨?_, (Option.some.inj h).symm⟩
      intro worker hasleep
      exact hnobody worker (isAsleep_iff.mpr hasleep)
    · cases h
  | some worker =>
    simp only [signal] at h
    split at h
    · rename_i hasleep
      exact Or.inr ⟨worker, isAsleep_iff.mp hasleep, (Option.some.inj h).symm⟩
    · cases h

/-- **Dequeueing**, on a queue of requests: the worker goes to sleep if there is none,
    and takes the first one otherwise. -/
theorem workerDequeue_effect (requestHandler : Bytes → Exec (Block × Nat))
    {server : Server Addr W} {requests : List (UdpRequest Addr)} (h : Usable server requests)
    {worker : W} (htests : (server.workers worker).Tests) :
    ∃ server' requests', workerDequeue server worker = .ok server' ∧
      Usable server' requests' ∧ Effect requestHandler server requests server' requests' := by
  cases requests with
  | nil =>
    refine ⟨_, [], ?_, ?_, .sleeps worker htests rfl⟩
    · simp only [workerDequeue, xqueueDequeue_nil h.holds, ok_bind, pure_eq_ok]
    · exact ⟨h.holds, h.bound⟩
  | cons req rest =>
    obtain ⟨heap, queue, hrun, hholds⟩ := xqueueDequeue_cons h.holds
    refine ⟨_, rest, ?_, ?_, .takes heap queue worker req rest htests rfl⟩
    · simp only [workerDequeue, hrun, ok_bind, pure_eq_ok]
    · exact ⟨hholds, h.bound⟩

variable [Fintype W] (requestHandler : Bytes → Exec (Block × Nat))

/-- The move returns, and is one of the effects. -/
def Moved (server : Server Addr W) (requests : List (UdpRequest Addr))
    (result : Exec (Unit × Server Addr W)) : Prop :=
  ∃ server' requests', result = .ok ((), server') ∧ Usable server' requests' ∧
    Effect requestHandler server requests server' requests'

section Cases

variable {server : Server Addr W} {requests : List (UdpRequest Addr)} (h : Usable server requests)

include h

theorem recvfrom_moved (arrival : Option (Datagram Addr)) :
    Moved requestHandler server requests
      (serverStep requestHandler server (.recvfrom arrival)) := by
  rcases hreceiver : server.receiver with _ | ⟨addr, n⟩
  · rcases arrival with _ | ⟨addr, datagram⟩
    · refine ⟨server, requests, ?_, h, .idle⟩
      simp only [serverStep, hreceiver]
    · by_cases hn : 0 < (recvfrom server.buffer datagram).2
      · refine ⟨_, requests, ?_, ?_,
          .receives (recvfrom server.buffer datagram).1 addr (recvfrom server.buffer datagram).2
            hreceiver (recvfrom_le _ _)⟩
        · simp only [serverStep, hreceiver, if_pos hn, slice_recvfrom]
        · refine ⟨h.holds, ?_⟩
          intro addr' n' hholding
          cases hholding
          exact recvfrom_le _ _
      · refine ⟨_, requests, ?_, ?_, .drops (recvfrom server.buffer datagram).1 hreceiver⟩
        · simp only [serverStep, hreceiver, if_neg hn]
        · exact ⟨h.holds, h.bound⟩
  · refine ⟨server, requests, ?_, h, .idle⟩
    simp only [serverStep, hreceiver]

theorem enqueue_moved (node : Address) (choice : Option W) :
    Moved requestHandler server requests
      (serverStep requestHandler server (.enqueue node choice)) := by
  rcases hreceiver : server.receiver with _ | ⟨addr, n⟩
  · refine ⟨server, requests, ?_, h, .idle⟩
    simp only [serverStep, hreceiver]
  rcases hsignal : signal server.workers choice with _ | workers
  · refine ⟨server, requests, ?_, h, .idle⟩
    simp only [serverStep, hreceiver, hsignal]
  rcases hnode : server.heap node with _ | cell
  · have hread : 0 + n ≤ server.buffer.val.length := by
      rw [server.buffer.property, Nat.zero_add]
      exact h.bound addr n hreceiver
    obtain ⟨heap, queue, hrun, hholds⟩ := xqueueEnqueue_eq h.holds hnode
      (some (⟨addr, n, slice server.buffer.val 0 n, length_slice hread⟩ : UdpRequest Addr))
    refine ⟨_, requests ++ [⟨addr, n, slice server.buffer.val 0 n, length_slice hread⟩], ?_, ?_,
      .enqueues heap queue workers _ ?_ (signals_of_signal hsignal)⟩
    · simp only [serverStep, hreceiver, hsignal, hnode, readArray_eq_ok hread, hrun, ok_bind,
        pure_eq_ok]
    · refine ⟨?_, ?_⟩
      · simp only [List.map_append, List.map_cons, List.map_nil]
        exact hholds
      · intro addr' n' hholding
        cases hholding
    · simp only [Server.inHand, hreceiver, UdpRequest.datagram]
  · refine ⟨server, requests, ?_, h, .idle⟩
    simp only [serverStep, hreceiver, hsignal, hnode]

theorem dequeue_moved (worker : W) :
    Moved requestHandler server requests
      (serverStep requestHandler server (.dequeue worker)) := by
  rcases hworker : server.workers worker with _ | _ | _ | req | ⟨req, output, len⟩
  case awake =>
    obtain ⟨server', requests', hrun, hnext⟩ :=
      workerDequeue_effect requestHandler h (Or.inl hworker)
    refine ⟨server', requests', ?_, hnext⟩
    simp only [serverStep, hworker, hrun, ok_bind, pure_eq_ok]
  case woken =>
    obtain ⟨server', requests', hrun, hnext⟩ :=
      workerDequeue_effect requestHandler h (Or.inr hworker)
    refine ⟨server', requests', ?_, hnext⟩
    simp only [serverStep, hworker, hrun, ok_bind, pure_eq_ok]
  all_goals
    refine ⟨server, requests, ?_, h, .idle⟩
    simp only [serverStep, hworker]

theorem wakeUp_moved (worker : W) :
    Moved requestHandler server requests
      (serverStep requestHandler server (.wakeUp worker)) := by
  rcases hworker : server.workers worker with _ | _ | _ | req | ⟨req, output, len⟩
  case asleep =>
    refine ⟨_, requests, ?_, ?_, .wakes worker hworker⟩
    · simp only [serverStep, hworker]
    · exact ⟨h.holds, h.bound⟩
  all_goals
    refine ⟨server, requests, ?_, h, .idle⟩
    simp only [serverStep, hworker]

/-- **What a move does, if the handler does not fault.**  Its outcome is that of the
    handler or of `sendto` on the handler's output, or it is one of the effects. -/
theorem serverStep_effect (move : Move Addr W) :
    Moved requestHandler server requests (serverStep requestHandler server move) ∨
    (∃ worker req fault, server.workers worker = .holding req ∧
      requestHandler req.data = .error fault ∧
      serverStep requestHandler server move = .error fault) ∨
    (∃ worker req output len fault, server.workers worker = .replying req output len ∧
      load output len = .error fault ∧
      serverStep requestHandler server move = .error fault) := by
  cases move with
  | recvfrom arrival => exact Or.inl (recvfrom_moved requestHandler h arrival)
  | enqueue node choice => exact Or.inl (enqueue_moved requestHandler h node choice)
  | dequeue worker => exact Or.inl (dequeue_moved requestHandler h worker)
  | wakeUp worker => exact Or.inl (wakeUp_moved requestHandler h worker)
  | handle worker =>
    rcases hworker : server.workers worker with _ | _ | _ | req | ⟨req, output, len⟩
    case holding =>
      rcases hhandler : requestHandler req.data with fault | ⟨output, len⟩
      · right; left
        refine ⟨worker, req, fault, hworker, hhandler, ?_⟩
        simp only [serverStep, hworker, hhandler, error_bind]
      · left
        refine ⟨_, requests, ?_, ?_, .handles worker req output len hworker hhandler⟩
        · simp only [serverStep, hworker, hhandler, ok_bind, pure_eq_ok]
        · exact ⟨h.holds, h.bound⟩
    all_goals
      refine Or.inl ⟨server, requests, ?_, h, .idle⟩
      simp only [serverStep, hworker]
  | sendto worker =>
    rcases hworker : server.workers worker with _ | _ | _ | req | ⟨req, output, len⟩
    case replying =>
      rcases hload : load output len with fault | message
      · right; right
        refine ⟨worker, req, output, len, fault, hworker, hload, ?_⟩
        simp only [serverStep, hworker, hload, error_bind]
      · left
        refine ⟨_, requests, ?_, ?_, .sends worker req output len message hworker hload⟩
        · simp only [serverStep, hworker, hload, ok_bind, pure_eq_ok]
        · exact ⟨h.holds, h.bound⟩
    all_goals
      refine Or.inl ⟨server, requests, ?_, h, .idle⟩
      simp only [serverStep, hworker]

end Cases

end Effects

end Cdht.UdpServer
