/-
  Cdht/UdpDelivery.lean
  =====================
  **No sleeper is forgotten, and no request is lost, doubled or mixed up.**

  Two invariants of the server, each kept by every effect of `UdpServer.lean`:

    * `Awaited`    — while some worker sleeps, no more requests are queued than workers
                     have been woken and not looked yet;
    * `Conserved`  — whatever the receive loop has passed on is queued, held by a
                     worker, or answered, and each answer went to the sender of its
                     request.

  What has arrived is read off the moves of a run (`arrivals`), and so are the messages
  that were sent (`messages`).

  A signal is not remembered, and the request it announces may be taken by a worker
  that never slept.  The first invariant survives that because the request is then
  gone, too.
-/
import Cdht.UdpServer
import Mathlib.Algebra.BigOperators.Group.Finset.Piecewise
import Mathlib.Algebra.Order.Group.Multiset
import Mathlib.Data.Fintype.Basic
import Mathlib.Tactic.Abel

namespace Cdht.UdpServer

open Cdht.Memory Cdht.Machine Cdht.LinkedCells Cdht.WorkQueue

variable {Addr W : Type} [DecidableEq W]

/-! ### One worker changes its state -/

def SomeAsleep (workers : W → Worker Addr) : Prop := ∃ worker, workers worker = .asleep

theorem someAsleep_of_update {workers : W → Worker Addr} {worker : W} {state : Worker Addr}
    (hstate : state ≠ .asleep) (h : SomeAsleep (Function.update workers worker state)) :
    SomeAsleep workers := by
  obtain ⟨other, hother⟩ := h
  by_cases heq : other = worker
  · subst heq
    rw [Function.update_self] at hother
    exact absurd hother hstate
  · rw [Function.update_of_ne heq] at hother
    exact ⟨other, hother⟩

/-- The handlers' outputs of all workers stay right when one worker takes a state that
    is right. -/
theorem handled_update {requestHandler : Bytes → Exec (Block × Nat)} {workers : W → Worker Addr}
    {state : Worker Addr}
    (h : ∀ worker req output len, workers worker = .replying req output len →
      requestHandler req.data = .ok (output, len))
    (hstate : ∀ req output len, state = .replying req output len →
      requestHandler req.data = .ok (output, len)) (worker : W) :
    ∀ other req output len, Function.update workers worker state other =
      .replying req output len → requestHandler req.data = .ok (output, len) := by
  intro other req output len hother
  by_cases heq : other = worker
  · subst heq
    rw [Function.update_self] at hother
    exact hstate req output len hother
  · rw [Function.update_of_ne heq] at hother
    exact h other req output len hother

variable [Fintype W]

/-! ### Sums over the workers -/

/-- A sum over all workers after one of them has changed its state. -/
theorem sum_update_worker {S M : Type} [AddCommMonoid M] (part : S → M) (workers : W → S)
    (worker : W) (state : S) :
    ∑ w, part (Function.update workers worker state w) + part (workers worker) =
      ∑ w, part (workers w) + part state := by
  have hpart : ∀ w, part (Function.update workers worker state w) =
      Function.update (fun w => part (workers w)) worker (part state) w := by
    intro w
    by_cases hw : w = worker
    · subst hw
      simp only [Function.update_self]
    · simp only [Function.update_of_ne hw]
  simp only [hpart]
  rw [Finset.sum_update_of_mem (Finset.mem_univ worker), ← Finset.erase_eq,
    ← Finset.add_sum_erase Finset.univ (fun w => part (workers w)) (Finset.mem_univ worker)]
  abel

def wokenCount (workers : W → Worker Addr) : Nat :=
  (Finset.univ.filter fun w => (workers w).isWoken).card

theorem wokenCount_update (workers : W → Worker Addr) (worker : W) (state : Worker Addr) :
    wokenCount (Function.update workers worker state) + (if (workers worker).isWoken then 1 else 0) =
      wokenCount workers + if state.isWoken then 1 else 0 := by
  simp only [wokenCount, Finset.card_filter]
  exact sum_update_worker (fun state : Worker Addr => if state.isWoken then 1 else 0) workers worker
    state

/-! ### No lost wakeup -/

def Awaited (server : Server Addr W) (requests : List (UdpRequest Addr)) : Prop :=
  SomeAsleep server.workers → requests.length ≤ wokenCount server.workers

theorem Effect.awaited {requestHandler : Bytes → Exec (Block × Nat)} {server server' : Server Addr W}
    {requests requests' : List (UdpRequest Addr)}
    (heffect : Effect requestHandler server requests server' requests')
    (h : Awaited server requests) : Awaited server' requests' := by
  intro hasleep'
  cases heffect with
  | idle => exact h hasleep'
  | drops buffer hreceiver => exact h hasleep'
  | receives buffer addr n hreceiver hn => exact h hasleep'
  | enqueues heap queue workers req hinHand hsignals =>
    rcases hsignals with ⟨hnobody, rfl⟩ | ⟨worker, hasleep, rfl⟩
    · obtain ⟨worker, hworker⟩ := hasleep'
      exact absurd hworker (hnobody worker)
    · have hbefore := h ⟨worker, hasleep⟩
      have hcount := wokenCount_update server.workers worker .woken
      simp only [hasleep, Worker.isWoken, Bool.false_eq_true, if_false, if_true] at hcount
      simp only [List.length_append, List.length_singleton]
      omega
  | sleeps worker htests hempty =>
    rw [hempty]
    exact Nat.zero_le _
  | takes heap queue worker req rest htests hrequests =>
    have hbefore := h (someAsleep_of_update (by simp) hasleep')
    have hcount := wokenCount_update server.workers worker (.holding req)
    rw [hrequests, List.length_cons] at hbefore
    show requests'.length ≤ wokenCount (Function.update server.workers worker (.holding req))
    rcases htests with hworker | hworker
    · simp only [hworker, Worker.isWoken, Bool.false_eq_true, if_false] at hcount
      omega
    · simp only [hworker, Worker.isWoken, Bool.false_eq_true, if_false, if_true] at hcount
      omega
  | wakes worker hasleep =>
    have hbefore := h ⟨worker, hasleep⟩
    have hcount := wokenCount_update server.workers worker .woken
    simp only [hasleep, Worker.isWoken, Bool.false_eq_true, if_false, if_true] at hcount
    show requests.length ≤ wokenCount (Function.update server.workers worker .woken)
    omega
  | handles worker req output len hholding hhandler =>
    have hbefore := h (someAsleep_of_update (by simp) hasleep')
    have hcount := wokenCount_update server.workers worker (.replying req output len)
    simp only [hholding, Worker.isWoken, Bool.false_eq_true, if_false] at hcount
    show requests.length ≤ wokenCount (Function.update server.workers worker _)
    omega
  | sends worker req output len message hreplying hload =>
    have hbefore := h (someAsleep_of_update (by simp) hasleep')
    have hcount := wokenCount_update server.workers worker .awake
    simp only [hreplying, Worker.isWoken, Bool.false_eq_true, if_false] at hcount
    show requests.length ≤ wokenCount (Function.update server.workers worker _)
    omega

/-! ### Every request is somewhere -/

def Worker.held : Worker Addr → Multiset (Datagram Addr)
  | .holding req => {req.datagram}
  | .replying req _ _ => {req.datagram}
  | _ => 0

/-- The message is what the handler makes of the datagram's own data, on the way to the
    datagram's own source. -/
def IsReply (requestHandler : Bytes → Exec (Block × Nat)) (datagram : Datagram Addr)
    (message : Addr × Bytes) : Prop :=
  message.1 = datagram.1 ∧ ∃ output len, requestHandler datagram.2 = .ok (output, len) ∧
    load output len = .ok message.2

structure Conserved (requestHandler : Bytes → Exec (Block × Nat)) (server : Server Addr W)
    (requests : List (UdpRequest Addr)) : Prop where
  parts : (server.received : Multiset (Datagram Addr)) =
    (requests.map UdpRequest.datagram : List (Datagram Addr)) + ∑ w, (server.workers w).held +
      (server.answered : Multiset (Datagram Addr))
  delivered : server.delivered = server.received ++ server.inHand
  handled : ∀ worker req output len, server.workers worker = .replying req output len →
    requestHandler req.data = .ok (output, len)
  replies : List.Forall₂ (IsReply requestHandler) server.answered server.sent

theorem conserved_new {W : Type} [Fintype W] (requestHandler : Bytes → Exec (Block × Nat))
    (dummy : Address) (buffer : CharArray BUFFER_SIZE) :
    Conserved requestHandler (serverNew dummy buffer : Server Addr W) [] := by
  refine ⟨?_, rfl, ?_, .nil⟩
  · simp only [serverNew, Worker.held, Finset.sum_const_zero, List.map_nil, Multiset.coe_nil,
      add_zero]
  · intro worker req output len hworker
    cases hworker

/-- What the workers hold together, after one of them has changed its state. -/
theorem held_update {workers : W → Worker Addr} {worker : W} {state : Worker Addr}
    {before after : Multiset (Datagram Addr)} (hbefore : (workers worker).held = before)
    (hafter : state.held = after) :
    ∑ w, (Function.update workers worker state w).held + before =
      ∑ w, (workers w).held + after := by
  rw [← hbefore, ← hafter]
  exact sum_update_worker Worker.held workers worker state

theorem Worker.Tests.held {worker : Worker Addr} (h : worker.Tests) : worker.held = 0 := by
  rcases h with rfl | rfl
  · rfl
  · rfl

theorem Signals.held {workers workers' : W → Worker Addr} (h : Signals workers workers') :
    ∑ w, (workers' w).held = ∑ w, (workers w).held := by
  rcases h with ⟨-, rfl⟩ | ⟨worker, hasleep, rfl⟩
  · rfl
  · have hupdate := @held_update _ _ _ _ workers worker .woken 0 0 (by rw [hasleep]; rfl) rfl
    simpa only [add_zero] using hupdate

/-- A worker that goes on to a state in which it holds the same. -/
theorem Conserved.setWorker {requestHandler : Bytes → Exec (Block × Nat)} {server : Server Addr W}
    {requests : List (UdpRequest Addr)} (h : Conserved requestHandler server requests) {worker : W}
    {state : Worker Addr} (hsame : (server.workers worker).held = state.held)
    (hstate : ∀ req output len, state = .replying req output len →
      requestHandler req.data = .ok (output, len)) :
    Conserved requestHandler (server.setWorker worker state) requests := by
  have hheld := @held_update _ _ _ _ server.workers worker state _ _ hsame rfl
  refine ⟨?_, h.delivered, handled_update h.handled hstate worker, h.replies⟩
  simp only [Server.setWorker, add_right_cancel hheld, h.parts]

theorem Effect.conserved {requestHandler : Bytes → Exec (Block × Nat)}
    {server server' : Server Addr W} {requests requests' : List (UdpRequest Addr)}
    (heffect : Effect requestHandler server requests server' requests')
    (h : Conserved requestHandler server requests) : Conserved requestHandler server' requests' := by
  have hparts := h.parts
  cases heffect with
  | idle => exact h
  | drops buffer hreceiver =>
    refine ⟨hparts, ?_, h.handled, h.replies⟩
    have hdelivered := h.delivered
    simp only [Server.inHand, hreceiver] at hdelivered ⊢
    exact hdelivered
  | receives buffer addr n hreceiver hn =>
    refine ⟨hparts, ?_, h.handled, h.replies⟩
    have hdelivered := h.delivered
    simp only [Server.inHand, hreceiver, List.append_nil] at hdelivered ⊢
    rw [hdelivered]
  | enqueues heap queue workers req hinHand hsignals =>
    refine ⟨?_, ?_, ?_, h.replies⟩
    · simp only [List.map_append, List.map_cons, List.map_nil, ← Multiset.coe_add, hparts,
        hsignals.held]
      abel
    · simp only [Server.inHand, List.append_nil]
      rw [h.delivered, hinHand]
    · rcases hsignals with ⟨-, rfl⟩ | ⟨worker, -, rfl⟩
      · exact h.handled
      · apply handled_update h.handled
        intro req output len hstate
        cases hstate
  | sleeps worker htests hempty =>
    apply h.setWorker htests.held
    intro req output len hstate
    cases hstate
  | takes heap queue worker req rest htests hrequests =>
    have hheld := @held_update _ _ _ _ server.workers worker (.holding req) 0 {req.datagram}
      htests.held rfl
    refine ⟨?_, h.delivered, ?_, h.replies⟩
    · simp only [add_zero] at hheld
      simp only [Server.setWorker, hheld, hparts, hrequests, List.map_cons, ← Multiset.cons_coe,
        ← Multiset.singleton_add]
      abel
    · apply handled_update h.handled
      intro req output len hstate
      cases hstate
  | wakes worker hasleep =>
    apply h.setWorker (by rw [hasleep]; rfl)
    intro req output len hstate
    cases hstate
  | handles worker req output len hholding hhandler =>
    apply h.setWorker (by rw [hholding]; rfl)
    intro req' output' len' hstate
    cases hstate
    exact hhandler
  | sends worker req output len message hreplying hload =>
    have hheld := @held_update _ _ _ _ server.workers worker .awake {req.datagram} 0
      (by rw [hreplying]; rfl) rfl
    refine ⟨?_, h.delivered, ?_, ?_⟩
    · simp only [add_zero] at hheld
      simp only [← Multiset.coe_add, hparts, ← hheld, Multiset.coe_singleton]
      abel
    · apply handled_update h.handled
      intro req output len hstate
      cases hstate
    · apply List.rel_append h.replies
      exact .cons ⟨rfl, output, len, h.handled worker req output len hreplying, hload⟩ .nil

/-! ### What has arrived, and what was sent -/

/-- The datagram with which a move ends a wait in `recvfrom` with `n > 0`. -/
def arrival (server : Server Addr W) : Move Addr W → List (Datagram Addr)
  | .recvfrom (some (addr, datagram)) =>
      match server.receiver, datagram with
      | .receiving, _ :: _ => [(addr, datagram.take BUFFER_SIZE)]
      | _, _ => []
  | _ => []

/-- The message of a move that calls `sendto`. -/
def message (server : Server Addr W) : Move Addr W → List (Addr × Bytes)
  | .sendto worker =>
      match server.workers worker with
      | .replying req output len =>
          match load output len with
          | .ok bytes => [(req.addr, bytes)]
          | .error _ => []
      | _ => []
  | _ => []

theorem recvfrom_pos_iff (buffer : CharArray BUFFER_SIZE) (datagram : Bytes) :
    0 < (recvfrom buffer datagram).2 ↔ datagram ≠ [] := by
  have hsize : 0 < BUFFER_SIZE := by decide
  show 0 < (datagram.take BUFFER_SIZE).length ↔ _
  rw [List.length_take, Nat.lt_min, List.length_pos_iff]
  exact and_iff_right hsize

omit [Fintype W] in
theorem workerDequeue_records {server server' : Server Addr W} {worker : W}
    (h : workerDequeue server worker = .ok server') :
    server'.delivered = server.delivered ∧ server'.sent = server.sent := by
  obtain ⟨⟨taken, heap, queue⟩, -, h⟩ := bind_eq_ok h
  rcases taken with _ | _ | req
  all_goals
    cases h
    exact ⟨rfl, rfl⟩

/-- Every move records what arrives by it and what it sends. -/
theorem serverStep_records {requestHandler : Bytes → Exec (Block × Nat)}
    {server server' : Server Addr W} {move : Move Addr W} {output : Unit}
    (h : serverStep requestHandler server move = .ok (output, server')) :
    server'.delivered = server.delivered ++ arrival server move ∧
      server'.sent = server.sent ++ message server move := by
  have hidle : ∀ {next : Server Addr W}, next.delivered = server.delivered →
      next.sent = server.sent → next.delivered = server.delivered ++ [] ∧
        next.sent = server.sent ++ [] := by
    intro next hdelivered hsent
    rw [List.append_nil, List.append_nil]
    exact ⟨hdelivered, hsent⟩
  cases move with
  | recvfrom arrived =>
    rcases hreceiver : server.receiver with _ | ⟨addr, n⟩
    · rcases arrived with _ | ⟨addr, datagram⟩
      · simp only [serverStep, hreceiver] at h
        cases h
        exact hidle rfl rfl
      · have hpos := recvfrom_pos_iff server.buffer datagram
        simp only [serverStep, hreceiver] at h
        rcases datagram with _ | ⟨byte, rest⟩
        · rw [if_neg (fun hn => hpos.mp hn rfl)] at h
          cases h
          simp only [arrival, hreceiver, message]
          exact hidle rfl rfl
        · rw [if_pos (hpos.mpr (List.cons_ne_nil _ _))] at h
          cases h
          simp only [arrival, hreceiver, message, List.append_nil, and_self]
    · have hnone : arrival server (.recvfrom arrived) = [] := by
        rcases arrived with _ | ⟨addr', datagram⟩
        · rfl
        · simp only [arrival, hreceiver]
      simp only [serverStep, hreceiver] at h
      cases h
      rw [hnone]
      exact hidle rfl rfl
  | enqueue node choice =>
    simp only [serverStep] at h
    split at h
    · obtain ⟨data, -, h⟩ := bind_eq_ok h
      obtain ⟨queued, -, h⟩ := bind_eq_ok h
      cases h
      exact hidle rfl rfl
    · cases h
      exact hidle rfl rfl
  | dequeue worker =>
    simp only [serverStep] at h
    split at h
    · obtain ⟨next, hnext, h⟩ := bind_eq_ok h
      cases h
      exact hidle (workerDequeue_records hnext).1 (workerDequeue_records hnext).2
    · obtain ⟨next, hnext, h⟩ := bind_eq_ok h
      cases h
      exact hidle (workerDequeue_records hnext).1 (workerDequeue_records hnext).2
    · cases h
      exact hidle rfl rfl
  | wakeUp worker =>
    simp only [serverStep] at h
    split at h
    · cases h
      exact hidle rfl rfl
    · cases h
      exact hidle rfl rfl
  | handle worker =>
    simp only [serverStep] at h
    split at h
    · obtain ⟨result, -, h⟩ := bind_eq_ok h
      cases h
      exact hidle rfl rfl
    · cases h
      exact hidle rfl rfl
  | sendto worker =>
    rcases hworker : server.workers worker with _ | _ | _ | req | ⟨req, output, len⟩
    case replying =>
      simp only [serverStep, hworker] at h
      obtain ⟨bytes, hload, h⟩ := bind_eq_ok h
      cases h
      simp only [arrival, message, hworker, hload, List.append_nil, and_self]
    all_goals
      simp only [serverStep, hworker] at h
      cases h
      simp only [message, hworker]
      exact hidle rfl rfl

/-! ### Whole runs -/

variable (requestHandler : Bytes → Exec (Block × Nat))

section Steps

variable {server : Server Addr W}

theorem serverStep_recvfrom (hreceiver : server.receiver = .receiving) (addr : Addr)
    {datagram : Bytes} (hsome : datagram ≠ []) :
    serverStep requestHandler server (.recvfrom (some (addr, datagram))) = .ok ((), { server with
      buffer := (recvfrom server.buffer datagram).1
      receiver := .holding addr (recvfrom server.buffer datagram).2
      delivered := server.delivered ++ [(addr, datagram.take BUFFER_SIZE)] }) := by
  simp only [serverStep, hreceiver, if_pos ((recvfrom_pos_iff server.buffer datagram).mpr hsome)]

theorem serverStep_enqueue (req : UdpRequest Addr)
    (hreceiver : server.receiver = .holding req.addr req.dataLength)
    (hn : req.dataLength ≤ BUFFER_SIZE)
    (hdata : req.data = slice server.buffer.val 0 req.dataLength) {choice : Option W}
    {workers : W → Worker Addr} (hsignal : signal server.workers choice = some workers)
    {node : Address} (hnode : server.heap node = none)
    {heap : Heap (Option (UdpRequest Addr))} {queue : XQueue}
    (hqueue : xqueueEnqueue server.heap server.queue node (some req) = .ok (heap, queue)) :
    serverStep requestHandler server (.enqueue node choice) = .ok ((), { server with
      heap := heap
      queue := queue
      receiver := .receiving
      workers := workers
      received := server.received ++ [req.datagram] }) := by
  have hread : 0 + req.dataLength ≤ server.buffer.val.length := by
    rw [server.buffer.property, Nat.zero_add]
    exact hn
  obtain ⟨addr, n, data, hlength⟩ := req
  simp only at hdata
  subst hdata
  simp only [serverStep, hreceiver, hsignal, hnode, readArray_eq_ok hread, hqueue, ok_bind, pure_eq_ok]

end Steps

theorem effect_of_serverStep {server server' : Server Addr W} {requests : List (UdpRequest Addr)}
    (h : Usable server requests) {move : Move Addr W} {output : Unit}
    (hstep : serverStep requestHandler server move = .ok (output, server')) :
    ∃ requests', Usable server' requests' ∧
      Effect requestHandler server requests server' requests' := by
  rcases serverStep_effect requestHandler h move with
    ⟨next, requests', hrun, hnext⟩ | ⟨-, -, fault, -, -, hrun⟩ | ⟨-, -, -, -, fault, -, -, hrun⟩
  · rw [hrun] at hstep
    cases hstep
    exact ⟨requests', hnext⟩
  · rw [hrun] at hstep
    cases hstep
  · rw [hrun] at hstep
    cases hstep

theorem run_server_total (dummy : Address) (buffer : CharArray BUFFER_SIZE)
    (hhandler : ∀ data, ∃ output len message, requestHandler data = .ok (output, len) ∧
      load output len = .ok message) (moves : List (Move Addr W)) :
    ∃ outputs server, run (serverStep requestHandler) (serverNew dummy buffer) moves =
      .ok (outputs, server) := by
  have hstep : ∀ (server : Server Addr W) move,
      (∃ requests, Usable server requests ∧ Conserved requestHandler server requests) →
      ∃ output server', serverStep requestHandler server move = .ok (output, server') ∧
        ∃ requests, Usable server' requests ∧ Conserved requestHandler server' requests := by
    rintro server move ⟨requests, husable, hconserved⟩
    rcases serverStep_effect requestHandler husable move with
      ⟨server', requests', hrun, husable', heffect⟩ | ⟨worker, req, fault, -, hfault, -⟩ |
      ⟨worker, req, output, len, fault, hreplying, hfault, -⟩
    · exact ⟨(), server', hrun, requests', husable', heffect.conserved hconserved⟩
    · obtain ⟨output, len, message, hok, -⟩ := hhandler req.data
      rw [hok] at hfault
      cases hfault
    · obtain ⟨output', len', message, hok, hload⟩ := hhandler req.data
      rw [hconserved.handled worker req output len hreplying] at hok
      cases hok
      rw [hload] at hfault
      cases hfault
  obtain ⟨outputs, server, hrun, -⟩ := run_total_of_invariant (serverStep requestHandler) _ hstep
    moves (serverNew dummy buffer)
    ⟨[], usable_new dummy buffer, conserved_new requestHandler dummy buffer⟩
  exact ⟨outputs, server, hrun⟩

/-- **No lost wakeup.**  In every state that any interleaving leads to: while some
    worker is asleep and not signalled, the queue holds at most as many requests as
    workers have been woken and not tested it again; so a queue is empty when all
    workers sleep. -/
theorem no_lost_wakeup (dummy : Address) (buffer : CharArray BUFFER_SIZE)
    (moves : List (Move Addr W)) (outputs : List Unit) (server : Server Addr W)
    (hrun : run (serverStep requestHandler) (serverNew dummy buffer) moves = .ok (outputs, server)) :
    ∃ requests : List (UdpRequest Addr), Holds server.heap server.queue (requests.map some) ∧
      ((∃ worker, server.workers worker = .asleep) →
        requests.length ≤ (Finset.univ.filter fun w => (server.workers w).isWoken).card) ∧
      (Nonempty W → (∀ worker, server.workers worker = .asleep) → requests = []) := by
  obtain ⟨requests, husable, hawaited⟩ := run_invariant (serverStep requestHandler)
    (fun server => ∃ requests, Usable server requests ∧ Awaited server requests)
    (fun server move output server' ⟨requests, husable, hawaited⟩ hstep =>
      let ⟨requests', husable', heffect⟩ := effect_of_serverStep requestHandler husable hstep
      ⟨requests', husable', heffect.awaited hawaited⟩)
    moves _ outputs server ⟨[], usable_new dummy buffer, fun _ => Nat.zero_le _⟩ hrun
  refine ⟨requests, husable.holds, hawaited, ?_⟩
  rintro ⟨worker⟩ hall
  have hnone : (Finset.univ.filter fun w => (server.workers w).isWoken) = ∅ := by
    apply Finset.filter_eq_empty_iff.mpr
    intro other _
    simp only [hall other, Worker.isWoken, Bool.false_eq_true, not_false_iff]
  have hlength := hawaited ⟨worker, hall worker⟩
  simp only [wokenCount, hnone, Finset.card_empty, Nat.le_zero] at hlength
  exact List.eq_nil_of_length_eq_zero hlength

/-- A handler that answers everything with one byte. -/
def oneByteHandler : Bytes → Exec (Block × Nat) := fun _ => .ok (filled [42] 0, 1)

theorem oneByteHandler_returns (data : Bytes) : ∃ output len message,
    oneByteHandler data = .ok (output, len) ∧ load output len = .ok message :=
  ⟨_, _, [42], rfl, rfl⟩

def zeroBuffer : CharArray BUFFER_SIZE := ⟨List.replicate BUFFER_SIZE 0, List.length_replicate⟩

/-- Two workers go to sleep, and a datagram wakes one of them. -/
def wakingMoves : List (Move Nat (Fin 8)) :=
  [.dequeue 3, .dequeue 4, .recvfrom (some (7, [1])), .enqueue 1 (some 3)]

theorem no_lost_wakeup_wakingMoves :
    ∃ outputs server, run (serverStep oneByteHandler) (serverNew 0 zeroBuffer) wakingMoves =
        .ok (outputs, server) ∧ server.workers 4 = .asleep ∧
      (Finset.univ.filter fun w => (server.workers w).isWoken).card = 1 ∧
      ∃ requests : List (UdpRequest Nat), Holds server.heap server.queue (requests.map some) ∧
        requests.length ≤ 1 := by
  have hrun : run (serverStep oneByteHandler) (serverNew 0 zeroBuffer) wakingMoves = .ok (_, _) :=
    run_cons _ rfl (run_cons _ rfl (run_cons _ (serverStep_recvfrom _ rfl 7 (by decide))
      (run_cons _ (serverStep_enqueue _ ⟨7, 1, [1], rfl⟩ rfl (by decide) rfl rfl rfl rfl) rfl)))
  obtain ⟨requests, hholds, hawaited, -⟩ :=
    no_lost_wakeup oneByteHandler 0 zeroBuffer wakingMoves _ _ hrun
  exact ⟨_, _, hrun, rfl, rfl, requests, hholds, hawaited ⟨4, rfl⟩⟩

/-- **What arrives by the moves of a run**: the datagrams with at least one byte that come
    while the receive loop is in `recvfrom`, as far as they fit its buffer. -/
def arrivals (server : Server Addr W) (moves : List (Move Addr W)) : List (Datagram Addr) :=
  observed (serverStep requestHandler) arrival server moves

/-- What the workers hand to `sendto` by the moves of a run. -/
def messages (server : Server Addr W) (moves : List (Move Addr W)) : List (Addr × Bytes) :=
  observed (serverStep requestHandler) message server moves

theorem delivered_eq_arrivals {dummy : Address} {buffer : CharArray BUFFER_SIZE}
    {moves : List (Move Addr W)} {outputs : List Unit} {server : Server Addr W}
    (hrun : run (serverStep requestHandler) (serverNew dummy buffer) moves = .ok (outputs, server)) :
    server.delivered = arrivals requestHandler (serverNew dummy buffer) moves :=
  run_observed (serverStep requestHandler) arrival Server.delivered
    (fun _ _ _ _ hstep => (serverStep_records hstep).1) moves _ outputs server hrun

theorem sent_eq_messages {dummy : Address} {buffer : CharArray BUFFER_SIZE}
    {moves : List (Move Addr W)} {outputs : List Unit} {server : Server Addr W}
    (hrun : run (serverStep requestHandler) (serverNew dummy buffer) moves = .ok (outputs, server)) :
    server.sent = messages requestHandler (serverNew dummy buffer) moves :=
  run_observed (serverStep requestHandler) message Server.sent
    (fun _ _ _ _ hstep => (serverStep_records hstep).2) moves _ outputs server hrun

theorem run_conserved {dummy : Address} {buffer : CharArray BUFFER_SIZE}
    {moves : List (Move Addr W)} {outputs : List Unit} {server : Server Addr W}
    (hrun : run (serverStep requestHandler) (serverNew dummy buffer) moves = .ok (outputs, server)) :
    ∃ requests, Usable server requests ∧ Conserved requestHandler server requests := by
  refine run_invariant (serverStep requestHandler)
    (fun server => ∃ requests, Usable server requests ∧ Conserved requestHandler server requests)
    ?_ moves _ outputs server
    ⟨[], usable_new dummy buffer, conserved_new requestHandler dummy buffer⟩ hrun
  rintro before move output after ⟨requests, husable, hconserved⟩ hstep
  obtain ⟨requests', husable', heffect⟩ := effect_of_serverStep requestHandler husable hstep
  exact ⟨requests', husable', heffect.conserved hconserved⟩

/-- **Each datagram is answered once, and to its own sender.**  No move of the server
    faults unless the handler does or its output is shorter than it says.  In every
    state that any interleaving leads to, the datagrams that have arrived are, in order,
    those that the loop has passed on and the one that it may have in hand; those passed
    on are, each as often as it came, the ones queued, the ones held by a worker and the
    ones answered.  The messages that the workers have sent are, in order, one for each
    datagram answered: the first `len` bytes of the handler's output for its data, to its
    source. -/
theorem each_datagram_answered_once (dummy : Address) (buffer : CharArray BUFFER_SIZE) :
    ((∀ data, ∃ output len message, requestHandler data = .ok (output, len) ∧
        load output len = .ok message) →
      ∀ moves : List (Move Addr W), ∃ outputs server,
        run (serverStep requestHandler) (serverNew dummy buffer) moves = .ok (outputs, server)) ∧
    ∀ (moves : List (Move Addr W)) (outputs : List Unit) (server : Server Addr W),
      run (serverStep requestHandler) (serverNew dummy buffer) moves = .ok (outputs, server) →
      ∃ requests : List (UdpRequest Addr), Holds server.heap server.queue (requests.map some) ∧
        arrivals requestHandler (serverNew dummy buffer) moves = server.received ++ server.inHand ∧
        (server.received : Multiset (Datagram Addr)) =
          (requests.map UdpRequest.datagram : List (Datagram Addr)) +
            ∑ w, (server.workers w).held + (server.answered : Multiset (Datagram Addr)) ∧
        List.Forall₂ (IsReply requestHandler) server.answered
          (messages requestHandler (serverNew dummy buffer) moves) := by
  refine ⟨run_server_total requestHandler dummy buffer, ?_⟩
  intro moves outputs server hrun
  obtain ⟨requests, husable, hconserved⟩ := run_conserved requestHandler hrun
  refine ⟨requests, husable.holds, ?_, hconserved.parts, ?_⟩
  · rw [← delivered_eq_arrivals requestHandler hrun]
    exact hconserved.delivered
  · rw [← sent_eq_messages requestHandler hrun]
    exact hconserved.replies

/-- A handler that sends back what it gets. -/
def echoHandler : Bytes → Exec (Block × Nat) := fun data => .ok (filled data 0, data.length)

/-- Two datagrams, of which the second one is answered first. -/
def overtakingMoves : List (Move Nat (Fin 8)) :=
  [.dequeue 3, .recvfrom (some (7, [1])), .enqueue 1 (some 3), .recvfrom (some (8, [2, 3])),
    .dequeue 3, .enqueue 2 none, .dequeue 4, .handle 4, .handle 3, .sendto 4, .sendto 3]

theorem each_datagram_answered_once_overtakingMoves :
    ∃ outputs server, run (serverStep echoHandler) (serverNew 0 zeroBuffer) overtakingMoves =
        .ok (outputs, server) ∧
      server.answered = [(8, [2, 3]), (7, [1])] ∧
      messages echoHandler (serverNew 0 zeroBuffer) overtakingMoves = [(8, [2, 3]), (7, [1])] ∧
      arrivals echoHandler (serverNew 0 zeroBuffer) overtakingMoves = [(7, [1]), (8, [2, 3])] ∧
      ∃ requests : List (UdpRequest Nat), Holds server.heap server.queue (requests.map some) ∧
        arrivals echoHandler (serverNew 0 zeroBuffer) overtakingMoves =
          server.received ++ server.inHand ∧
        (server.received : Multiset (Datagram Nat)) =
          (requests.map UdpRequest.datagram : List (Datagram Nat)) +
            ∑ w, (server.workers w).held + (server.answered : Multiset (Datagram Nat)) ∧
        List.Forall₂ (IsReply echoHandler) server.answered
          (messages echoHandler (serverNew 0 zeroBuffer) overtakingMoves) := by
  have hrun : run (serverStep echoHandler) (serverNew 0 zeroBuffer) overtakingMoves = .ok (_, _) :=
    run_cons _ rfl <| run_cons _ (serverStep_recvfrom _ rfl 7 (by decide)) <|
    run_cons _ (serverStep_enqueue _ ⟨7, 1, [1], rfl⟩ rfl (by decide) rfl rfl rfl rfl) <|
    run_cons _ (serverStep_recvfrom _ rfl 8 (by decide)) <| run_cons _ rfl <|
    run_cons _ (serverStep_enqueue _ ⟨8, 2, [2, 3], rfl⟩ rfl (by decide) rfl rfl rfl rfl) <|
    run_cons _ rfl <| run_cons _ rfl <| run_cons _ rfl <| run_cons _ rfl <| run_cons _ rfl rfl
  have hstates := (@each_datagram_answered_once Nat (Fin 8) _ _ echoHandler 0 zeroBuffer).2
    overtakingMoves _ _ hrun
  refine ⟨_, _, hrun, rfl, ?_, ?_, hstates⟩
  · rw [← sent_eq_messages echoHandler hrun]
    rfl
  · rw [← delivered_eq_arrivals echoHandler hrun]
    rfl

end Cdht.UdpServer
