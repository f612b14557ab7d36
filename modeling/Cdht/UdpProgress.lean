/-
  Cdht/UdpProgress.lean
  =====================
  **The workers come to rest, and then everything is answered.**

  A worker that tests the queue, has a request or has an output can go on by itself; a
  worker that sleeps cannot, and nobody promises that it wakes up without a signal.
  Every move of a worker that can go on brings `workLeft` down, so that without new
  datagrams the workers stop after a bounded number of moves, in whatever order they
  make them.  They stop only when all of them sleep.  Then the queue is empty, as no
  wakeup is lost, and every datagram received has been answered (`workers_drain`).
-/
import Cdht.UdpDelivery

namespace Cdht.UdpServer

open Cdht.Memory Cdht.Machine Cdht.LinkedCells Cdht.WorkQueue

variable {Addr W : Type}

/-! ### Moves that a worker can make by itself -/

def CanMove (server : Server Addr W) : Move Addr W → Prop
  | .dequeue worker => (server.workers worker).Tests
  | .handle worker => ∃ req, server.workers worker = .holding req
  | .sendto worker => ∃ req output len, server.workers worker = .replying req output len
  | _ => False

/-- How much a worker has to do before it sleeps. -/
def Worker.workLeft : Worker Addr → Nat
  | .asleep => 0
  | .awake | .woken => 1
  | .replying _ _ _ => 2
  | .holding _ => 3

theorem Worker.Tests.workLeft {worker : Worker Addr} (h : worker.Tests) : worker.workLeft = 1 := by
  rcases h with rfl | rfl
  · rfl
  · rfl

theorem asleep_of_not_canMove {server : Server Addr W} (h : ∀ move, ¬ CanMove server move)
    (worker : W) : server.workers worker = .asleep := by
  rcases hworker : server.workers worker with _ | _ | _ | req | ⟨req, output, len⟩
  case asleep => rfl
  case awake => exact absurd (Or.inl hworker) (h (.dequeue worker))
  case woken => exact absurd (Or.inr hworker) (h (.dequeue worker))
  case holding => exact absurd ⟨req, hworker⟩ (h (.handle worker))
  case replying => exact absurd ⟨req, output, len, hworker⟩ (h (.sendto worker))

variable [Fintype W]

/-! ### Work that is left -/

def workLeft (server : Server Addr W) (requests : List (UdpRequest Addr)) : Nat :=
  ∑ w, (server.workers w).workLeft + 4 * requests.length

variable (requestHandler : Bytes → Exec (Block × Nat))

/-- A state that a run leads to, with some work left. -/
def Busy (bound : Nat) (server : Server Addr W) : Prop :=
  ∃ requests, Usable server requests ∧ Conserved requestHandler server requests ∧
    Awaited server requests ∧ workLeft server requests = bound

variable {requestHandler}

/-! ### At rest -/

/-- When no worker can go on, nothing that was received is still to be answered. -/
theorem Busy.answered_of_rest [Nonempty W] {bound : Nat} {server : Server Addr W}
    (h : Busy requestHandler bound server) (hrest : ∀ move, ¬ CanMove server move) :
    (server.received : Multiset (Datagram Addr)) = server.answered := by
  obtain ⟨requests, husable, hconserved, hawaited, -⟩ := h
  have hasleep := asleep_of_not_canMove hrest
  have hwoken : wokenCount server.workers = 0 := by
    simp only [wokenCount, Finset.card_eq_zero, Finset.filter_eq_empty_iff]
    intro worker _
    simp only [hasleep worker, Worker.isWoken, Bool.false_eq_true, not_false_iff]
  have hempty : requests = [] := by
    obtain ⟨worker⟩ := ‹Nonempty W›
    have hlength := hawaited ⟨worker, hasleep worker⟩
    rw [hwoken] at hlength
    exact List.eq_nil_of_length_eq_zero (Nat.le_zero.mp hlength)
  have hheld : ∑ w, (server.workers w).held = 0 := by
    simp only [hasleep, Worker.held, Finset.sum_const_zero]
  rw [hconserved.parts, hempty, hheld]
  simp only [List.map_nil, Multiset.coe_nil, add_zero, zero_add]

/-! ### There is less and less to do -/

variable [DecidableEq W]

theorem workLeft_update (workers : W → Worker Addr) (worker : W) (state : Worker Addr) :
    ∑ w, (Function.update workers worker state w).workLeft + (workers worker).workLeft =
      ∑ w, (workers w).workLeft + state.workLeft :=
  sum_update_worker Worker.workLeft workers worker state

theorem Busy.of_effect {bound : Nat} {server server' : Server Addr W}
    {requests requests' : List (UdpRequest Addr)}
    (hconserved : Conserved requestHandler server requests) (hawaited : Awaited server requests)
    (husable' : Usable server' requests')
    (heffect : Effect requestHandler server requests server' requests')
    (hleft : workLeft server' requests' < bound) :
    ∃ bound' < bound, Busy requestHandler bound' server' :=
  ⟨_, hleft, requests', husable', heffect.conserved hconserved, heffect.awaited hawaited, rfl⟩

section OneMove

variable (hhandler : ∀ data, ∃ output len message, requestHandler data = .ok (output, len) ∧
  load output len = .ok message)

include hhandler

/-- **A worker that can go on does**, with less to do afterwards. -/
theorem Busy.step {bound : Nat} {server : Server Addr W} (h : Busy requestHandler bound server)
    {move : Move Addr W} (hmove : CanMove server move) :
    ∃ server', serverStep requestHandler server move = .ok ((), server') ∧
      server'.received = server.received ∧
      ∃ bound' < bound, Busy requestHandler bound' server' := by
  obtain ⟨requests, husable, hconserved, hawaited, rfl⟩ := h
  cases move with
  | recvfrom arrival => cases hmove
  | enqueue node choice => cases hmove
  | wakeUp worker => cases hmove
  | dequeue worker =>
    have htests : (server.workers worker).Tests := hmove
    have hstep : ∀ server', workerDequeue server worker = .ok server' →
        serverStep requestHandler server (.dequeue worker) = .ok ((), server') := by
      intro server' hrun
      rcases htests with hworker | hworker
      · simp only [serverStep, hworker, hrun, ok_bind, pure_eq_ok]
      · simp only [serverStep, hworker, hrun, ok_bind, pure_eq_ok]
    cases requests with
    | nil =>
      refine ⟨server.setWorker worker .asleep, hstep _ ?_, rfl, ?_⟩
      · simp only [workerDequeue, xqueueDequeue_nil husable.holds, ok_bind, pure_eq_ok]
      · refine Busy.of_effect hconserved hawaited ⟨husable.holds, husable.bound⟩
          (.sleeps worker htests rfl) ?_
        have hleft := workLeft_update server.workers worker .asleep
        rw [htests.workLeft] at hleft
        simp only [workLeft, Server.setWorker, Worker.workLeft] at hleft ⊢
        omega
    | cons req rest =>
      obtain ⟨heap, queue, hrun, hholds⟩ := xqueueDequeue_cons husable.holds
      refine ⟨_, hstep (Server.setWorker { server with heap := heap, queue := queue } worker
        (.holding req)) ?_, rfl, ?_⟩
      · simp only [workerDequeue, hrun, ok_bind, pure_eq_ok]
      · refine Busy.of_effect hconserved hawaited ⟨hholds, husable.bound⟩
          (.takes heap queue worker req rest htests rfl) ?_
        have hleft := workLeft_update server.workers worker (.holding req)
        rw [htests.workLeft] at hleft
        simp only [workLeft, Server.setWorker, Worker.workLeft, List.length_cons] at hleft ⊢
        omega
  | handle worker =>
    obtain ⟨req, hholding⟩ := hmove
    obtain ⟨output, len, message, hok, -⟩ := hhandler req.data
    refine ⟨server.setWorker worker (.replying req output len), ?_, rfl, ?_⟩
    · simp only [serverStep, hholding, hok, ok_bind, pure_eq_ok]
    · refine Busy.of_effect hconserved hawaited ⟨husable.holds, husable.bound⟩
        (.handles worker req output len hholding hok) ?_
      have hleft := workLeft_update server.workers worker (.replying req output len)
      simp only [workLeft, Server.setWorker, Worker.workLeft, hholding] at hleft ⊢
      omega
  | sendto worker =>
    obtain ⟨req, output, len, hreplying⟩ := hmove
    obtain ⟨output', len', message, hok, hmessage⟩ := hhandler req.data
    have hsame := (hconserved.handled worker req output len hreplying).symm.trans hok
    cases hsame
    refine ⟨{ server with
      workers := Function.update server.workers worker .awake
      answered := server.answered ++ [req.datagram]
      sent := server.sent ++ [(req.addr, message)] }, ?_, rfl, ?_⟩
    · simp only [serverStep, hreplying, hmessage, ok_bind, pure_eq_ok]
    · refine Busy.of_effect hconserved hawaited ⟨husable.holds, husable.bound⟩
        (.sends worker req output len message hreplying hmessage) ?_
      have hleft := workLeft_update server.workers worker .awake
      simp only [workLeft, Worker.workLeft, hreplying] at hleft ⊢
      omega

/-- Moves of workers, in any order. -/
theorem Busy.run {work : List (Move Addr W)} {bound : Nat} {server : Server Addr W}
    (h : Busy requestHandler bound server)
    (hwork : StepsMeet (serverStep requestHandler) CanMove server work) :
    ∃ outputs final, Machine.run (serverStep requestHandler) server work = .ok (outputs, final) ∧
      final.received = server.received ∧ ∃ bound', Busy requestHandler bound' final := by
  induction work generalizing bound server with
  | nil => exact ⟨[], server, rfl, rfl, bound, h⟩
  | cons move work ih =>
    obtain ⟨next, hstep, hreceived, bound', -, hnext⟩ := h.step hhandler hwork.1
    obtain ⟨outputs, final, hrun, hreceived', hfinal⟩ := ih hnext (hwork.2 () next hstep)
    refine ⟨() :: outputs, final, ?_, hreceived'.trans hreceived, hfinal⟩
    simp only [Machine.run, hstep, hrun, ok_bind, pure_eq_ok]

end OneMove

/-! ### Whole runs -/

/-- **The workers drain the queue.**  Whatever interleaving has led to a state, let the
    workers go on without new datagrams and without wakeups by themselves: in whatever
    order they move, they make a bounded number of moves and none of them faults; and
    when no worker can go on, every datagram that the receive loop has passed on has been
    answered.  These are all that have arrived, but for the one that the loop may still
    have in hand.  The handler is taken to return, with as many bytes as it says. -/
theorem workers_drain [Nonempty W]
    (hhandler : ∀ data, ∃ output len message, requestHandler data = .ok (output, len) ∧
      load output len = .ok message)
    (dummy : Address) (buffer : CharArray BUFFER_SIZE) (moves : List (Move Addr W))
    (outputs : List Unit) (server : Server Addr W)
    (hrun : run (serverStep requestHandler) (serverNew dummy buffer) moves =
      .ok (outputs, server)) :
    arrivals requestHandler (serverNew dummy buffer) moves = server.received ++ server.inHand ∧
    (∃ bound, ∀ work, StepsMeet (serverStep requestHandler) CanMove server work →
      work.length ≤ bound) ∧
    (∀ work, StepsMeet (serverStep requestHandler) CanMove server work →
      ∃ outputs' final, run (serverStep requestHandler) server work = .ok (outputs', final) ∧
        final.received = server.received ∧
        ((∀ move, ¬ CanMove final move) →
          (server.received : Multiset (Datagram Addr)) = final.answered)) ∧
    ∃ work outputs' final, StepsMeet (serverStep requestHandler) CanMove server work ∧
      run (serverStep requestHandler) server work = .ok (outputs', final) ∧
      ∀ move, ¬ CanMove final move := by
  obtain ⟨bound, hbusy⟩ : ∃ bound, Busy requestHandler bound server := by
    refine run_invariant (serverStep requestHandler) (fun server => ∃ bound,
      Busy requestHandler bound server) ?_ moves _ outputs server ?_ hrun
    · rintro before move output after ⟨-, requests, husable, hconserved, hawaited, -⟩ hstep
      obtain ⟨requests', husable', heffect⟩ := effect_of_serverStep requestHandler husable hstep
      exact ⟨_, requests', husable', heffect.conserved hconserved, heffect.awaited hawaited, rfl⟩
    · exact ⟨_, [], usable_new dummy buffer, conserved_new _ dummy buffer,
        fun _ => Nat.zero_le _, rfl⟩
  have hdescent : ∀ bound (state : Server Addr W) move, Busy requestHandler bound state →
      CanMove state move → ∃ output next bound', serverStep requestHandler state move =
        .ok (output, next) ∧ bound' < bound ∧ Busy requestHandler bound' next := by
    intro bound state move hstate hmove
    obtain ⟨next, hstep, -, bound', hless, hnext⟩ := hstate.step hhandler hmove
    exact ⟨(), next, bound', hstep, hless, hnext⟩
  refine ⟨?_, ⟨bound, fun work hwork => ?_⟩, fun work hwork => ?_, ?_⟩
  · obtain ⟨requests, -, hconserved⟩ := run_conserved requestHandler hrun
    rw [← delivered_eq_arrivals requestHandler hrun]
    exact hconserved.delivered
  · exact length_le_of_descent (serverStep requestHandler) hdescent work bound server hbusy hwork
  · obtain ⟨outputs', final, hfinal, hreceived, bound', hbusy'⟩ := hbusy.run hhandler hwork
    refine ⟨outputs', final, hfinal, hreceived, fun hrest => ?_⟩
    rw [← hreceived]
    exact hbusy'.answered_of_rest hrest
  · exact exists_rest_of_descent (serverStep requestHandler) hdescent bound server hbusy

theorem workers_drain_wakingMoves :
    ∃ outputs server, run (serverStep oneByteHandler) (serverNew 0 zeroBuffer) wakingMoves =
        .ok (outputs, server) ∧
      arrivals oneByteHandler (serverNew 0 zeroBuffer) wakingMoves =
        server.received ++ server.inHand ∧
      ∃ work outputs' final, StepsMeet (serverStep oneByteHandler) CanMove server work ∧
        run (serverStep oneByteHandler) server work = .ok (outputs', final) ∧
        (∀ move, ¬ CanMove final move) ∧
        (server.received : Multiset (Datagram Nat)) = final.answered := by
  obtain ⟨outputs, server, hrun⟩ :=
    run_server_total oneByteHandler 0 zeroBuffer oneByteHandler_returns wakingMoves
  obtain ⟨harrivals, -, hany, work, outputs', final, hmeet, hwork, hrest⟩ :=
    workers_drain oneByteHandler_returns 0 zeroBuffer wakingMoves outputs server hrun
  refine ⟨outputs, server, hrun, harrivals, work, outputs', final, hmeet, hwork, hrest, ?_⟩
  obtain ⟨outputs'', final', hwork', -, hanswered⟩ := hany work hmeet
  rw [hwork] at hwork'
  cases hwork'
  exact hanswered hrest

end Cdht.UdpServer
