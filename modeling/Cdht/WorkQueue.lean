/-
  Cdht/WorkQueue.lean
  ===================
  **The work queue** (`src/helpers/xqueue.c`, `include/helpers/xqueue.h`).

  A queue is a linked chain that begins with a dummy node: `head` always points to
  the dummy, `tail` to the last node, which is the dummy if the queue is empty.  The
  two operations are written for the time in which they hold the lock, with one heap
  access for each of the source, so that the use of a node that is not there would
  be a fault.  `xqueue_dequeue` on an empty queue has to wait; here it answers that
  it cannot go on.

  `Holds` relates the pointers to the list of queued values, and the two operations
  append a value and take the first one (`xqueueEnqueue_eq`, `xqueueDequeue_cons`).
  How they link the nodes does not depend on the values (`xqueueEnqueue_alike`,
  `xqueueDequeue_alike`).
  Over whole runs the queue is first-in first-out, also if the addresses of freed
  nodes are handed out again (`fifo_at_pointer_level`).
-/
import Cdht.LinkedCells
import Cdht.Machine
import Mathlib.Data.List.ReduceOption

namespace Cdht.WorkQueue

open Cdht.Memory Cdht.LinkedCells Cdht.Machine

variable {α : Type}

/-! ### The functions of the source -/

/-- `xqueue_t` without its lock and its condition variable. -/
structure XQueue where
  head : Address
  tail : Address
deriving DecidableEq

/-- `xqueue_new`, with the address of the dummy node and the NULL that it holds. -/
def xqueueNew (null : α) (dummy : Address) : Heap α × XQueue :=
  (placeCell (fun _ => none) dummy ⟨null, none⟩, ⟨dummy, dummy⟩)

def xqueueEnqueue (heap : Heap α) (queue : XQueue) (node : Address) (data : α) :
    Exec (Heap α × XQueue) := do
  let heap := placeCell heap node ⟨data, none⟩
  let heap ← storeNext heap queue.tail (some node)
  return (heap, { queue with tail := node })

/-- `xqueue_dequeue` from a test of `queue->head->next == NULL` on; `none` if the
    thread has to wait. -/
def xqueueDequeue (heap : Heap α) (queue : XQueue) : Exec (Option α × Heap α × XQueue) := do
  let dummy ← loadCell heap queue.head
  match dummy.next with
  | none => return (none, heap, queue)
  | some node =>
      let cell ← loadCell heap node
      let heap ← storeNext heap queue.head cell.next
      -- reset tail to dummy if last node removed
      let queue := if queue.tail = node then { queue with tail := queue.head } else queue
      return (some cell.data, freeCell heap node, queue)

/-! ### The values in a queue -/

/-- Following `next` from the dummy visits nodes that hold `items` and ends at NULL,
    and `tail` points to the last node visited. -/
def Holds (heap : Heap α) (queue : XQueue) (items : List α) : Prop :=
  ∃ (null : α) (nodes : List (Address × α)),
    Chain heap (some queue.head) ((queue.head, null) :: nodes) ∧
      queue.tail = (addresses nodes).getLastD queue.head ∧ nodes.map Prod.snd = items

theorem holds_new (null : α) (dummy : Address) :
    Holds (xqueueNew null dummy).1 (xqueueNew null dummy).2 [] := by
  refine ⟨null, [], ⟨rfl, none, ?_, rfl⟩, rfl, rfl⟩
  exact placeCell_self (fun _ => none) dummy ⟨null, none⟩

theorem holds_unique {heap : Heap α} {queue : XQueue} {items items' : List α}
    (h : Holds heap queue items) (h' : Holds heap queue items') : items = items' := by
  obtain ⟨null, nodes, hchain, -, rfl⟩ := h
  obtain ⟨null', nodes', hchain', -, rfl⟩ := h'
  have hsame := chain_unique hchain hchain'
  rw [(List.cons.inj hsame).2]

theorem eq_concat_getLastD (head : Address) (null : α) (nodes : List (Address × α)) :
    ∃ front data, (head, null) :: nodes =
      front ++ [((addresses nodes).getLastD head, data)] := by
  rcases List.eq_nil_or_concat' nodes with rfl | ⟨front, ⟨last, data⟩, rfl⟩
  · exact ⟨[], null, rfl⟩
  · refine ⟨(head, null) :: front, data, ?_⟩
    simp only [addresses, List.map_append, List.map_cons, List.map_nil, List.getLastD_concat,
      List.cons_append]

/-- **`xqueue_enqueue`** appends its value. -/
theorem xqueueEnqueue_eq {heap : Heap α} {queue : XQueue} {items : List α}
    (h : Holds heap queue items) {node : Address} (hunused : heap node = none) (data : α) :
    ∃ heap' queue', xqueueEnqueue heap queue node data = .ok (heap', queue') ∧
      Holds heap' queue' (items ++ [data]) := by
  obtain ⟨null, nodes, hchain, htail, hitems⟩ := h
  obtain ⟨front, value, hsplit⟩ := eq_concat_getLastD queue.head null nodes
  simp only [← htail] at hsplit
  have hchain' := hsplit ▸ hchain
  obtain ⟨next, hlast, hend⟩ := hchain'.split
  obtain rfl : next = none := hend
  have hne : queue.tail ≠ node := by
    intro heq
    simp only [heq, hunused, reduceCtorEq] at hlast
  have hplaced : placeCell heap node ⟨data, none⟩ queue.tail = some ⟨value, none⟩ := by
    simp only [placeCell_of_ne hne, hlast]
  have hrun : xqueueEnqueue heap queue node data = .ok
      (placeCell (placeCell heap node ⟨data, none⟩) queue.tail ⟨value, some node⟩,
        { queue with tail := node }) := by
    simp only [xqueueEnqueue, storeNext_eq_ok hplaced, ok_bind, pure_eq_ok]
  refine ⟨_, _, hrun, null, nodes ++ [(node, data)], ?_, ?_, ?_⟩
  · have hlink := @Chain.link α _ _ _ _ _ _ data hchain' hunused
    have hcells : front ++ [(queue.tail, value), (node, data)] =
        (queue.head, null) :: (nodes ++ [(node, data)]) := by
      rw [← List.cons_append, hsplit, List.append_assoc]
      rfl
    rwa [hcells] at hlink
  · simp only [addresses, List.map_append, List.map_cons, List.map_nil, List.getLastD_concat]
  · simp only [List.map_append, List.map_cons, List.map_nil, hitems]

theorem xqueueDequeue_nil {heap : Heap α} {queue : XQueue} (h : Holds heap queue []) :
    xqueueDequeue heap queue = .ok (none, heap, queue) := by
  obtain ⟨null, nodes, ⟨-, next, hdummy, hnodes⟩, -, hitems⟩ := h
  obtain rfl := List.map_eq_nil_iff.mp hitems
  obtain rfl : next = none := hnodes
  simp only [xqueueDequeue, loadCell_eq_ok hdummy, ok_bind, pure_eq_ok]

/-- **`xqueue_dequeue`** takes the first value. -/
theorem xqueueDequeue_cons {heap : Heap α} {queue : XQueue} {item : α} {items : List α}
    (h : Holds heap queue (item :: items)) :
    ∃ heap' queue', xqueueDequeue heap queue = .ok (some item, heap', queue') ∧
      Holds heap' queue' items := by
  obtain ⟨null, nodes, hchain, htail, hitems⟩ := h
  obtain ⟨⟨node, value⟩, rest, rfl, rfl, rfl⟩ := List.map_eq_cons_iff.mp hitems
  have hnodup := hchain.nodup
  simp only [addresses, List.map_cons, List.nodup_cons, List.mem_cons, not_or] at hnodup
  obtain ⟨⟨hhead, hheadRest⟩, hnode, -⟩ := hnodup
  obtain ⟨-, next, hdummy, hstart, next', hcell, hrest⟩ := hchain
  obtain rfl : next = some node := hstart
  have hchain' : Chain (freeCell (placeCell heap queue.head ⟨null, next'⟩) node) (some queue.head)
      ((queue.head, null) :: rest) := by
    refine ⟨rfl, next', ?_, hrest.congr ?_⟩
    · simp only [freeCell_of_ne hhead, placeCell_self]
    · intro other hother
      have hne : other ≠ node := fun heq => hnode (heq ▸ hother)
      have hne' : other ≠ queue.head := fun heq => hheadRest (heq ▸ hother)
      simp only [freeCell_of_ne hne, placeCell_of_ne hne']
  have hrun : xqueueDequeue heap queue = .ok (some value,
      freeCell (placeCell heap queue.head ⟨null, next'⟩) node,
      if queue.tail = node then { queue with tail := queue.head } else queue) := by
    simp only [xqueueDequeue, loadCell_eq_ok hdummy, loadCell_eq_ok hcell, storeNext_eq_ok hdummy,
      ok_bind, pure_eq_ok]
  refine ⟨_, _, hrun, ?_⟩
  rcases rest with _ | ⟨cell, rest⟩
  · -- the only node goes, and the tail with it
    have hlast : queue.tail = node := htail
    rw [if_pos hlast]
    exact ⟨null, [], hchain', rfl, rfl⟩
  · have htail' : queue.tail = (addresses (cell :: rest)).getLastD queue.head := by
      rw [htail]
      rfl
    have hkept : queue.tail ≠ node := by
      intro heq
      apply hnode
      rw [← heq, htail']
      exact last_mem_addresses (List.cons_ne_nil cell rest) queue.head
    rw [if_neg hkept]
    exact ⟨null, cell :: rest, hchain', htail', rfl⟩

/-! ### The shape of a queue -/

/-- The nodes of a heap and how they are linked, without their values. -/
def shape (heap : Heap α) : Address → Option (Option Address) :=
  fun address => (heap address).map Cell.next

theorem shape_placeCell (heap : Heap α) (address : Address) (cell : Cell α) :
    shape (placeCell heap address cell) = Function.update (shape heap) address (some cell.next) := by
  funext other
  by_cases h : other = address
  · subst h
    rw [Function.update_self, shape, placeCell_self, Option.map_some]
  · rw [Function.update_of_ne h, shape, placeCell_of_ne h, shape]

theorem shape_freeCell (heap : Heap α) (address : Address) :
    shape (freeCell heap address) = Function.update (shape heap) address none := by
  funext other
  by_cases h : other = address
  · subst h
    rw [Function.update_self, shape, freeCell_self, Option.map_none]
  · rw [Function.update_of_ne h, shape, freeCell_of_ne h, shape]

theorem shape_storeNext {heap heap' : Heap α} {address : Address} {next : Option Address}
    (h : storeNext heap address next = .ok heap') :
    shape heap' = Function.update (shape heap) address (some next) := by
  obtain ⟨cell, -, h⟩ := bind_eq_ok h
  cases h
  exact shape_placeCell heap address _

/-- Enqueueing depends on the shape, not on the values. -/
theorem xqueueEnqueue_shape {heap heap' : Heap α} {queue queue' : XQueue} {node : Address} {data : α}
    (h : xqueueEnqueue heap queue node data = .ok (heap', queue')) :
    shape heap' = Function.update (Function.update (shape heap) node (some none)) queue.tail
        (some (some node)) ∧ queue' = { queue with tail := node } := by
  obtain ⟨stored, hstore, h⟩ := bind_eq_ok h
  cases h
  rw [shape_storeNext hstore, shape_placeCell]
  exact ⟨rfl, rfl⟩

/-- What a dequeue makes of the shape, if `node` is the first node behind the dummy. -/
theorem xqueueDequeue_shape {heap heap' : Heap α} {queue queue' : XQueue} {item : α}
    (h : xqueueDequeue heap queue = .ok (some item, heap', queue')) :
    ∃ node next, shape heap queue.head = some (some node) ∧ shape heap node = some next ∧
      shape heap' = Function.update (Function.update (shape heap) queue.head (some next)) node none ∧
      queue' = if queue.tail = node then { queue with tail := queue.head } else queue := by
  obtain ⟨dummy, hdummy, h⟩ := bind_eq_ok h
  rcases hnext : dummy.next with _ | node
  · simp only [hnext] at h
    cases h
  simp only [hnext] at h
  obtain ⟨cell, hcell, h⟩ := bind_eq_ok h
  obtain ⟨stored, hstore, h⟩ := bind_eq_ok h
  cases h
  refine ⟨node, cell.next, ?_, ?_, ?_, rfl⟩
  · rw [shape, eq_some_of_loadCell hdummy, Option.map_some, hnext]
  · rw [shape, eq_some_of_loadCell hcell, Option.map_some]
  · rw [shape_freeCell, shape_storeNext hstore]

theorem xqueueEnqueue_alike {β : Type} {heap heap₁ : Heap α} {heap' heap₁' : Heap β}
    {queue queue₁ queue₁' : XQueue} {node : Address} {data : α} {data' : β}
    (hshape : shape heap = shape heap')
    (h : xqueueEnqueue heap queue node data = .ok (heap₁, queue₁))
    (h' : xqueueEnqueue heap' queue node data' = .ok (heap₁', queue₁')) :
    shape heap₁ = shape heap₁' ∧ queue₁ = queue₁' := by
  obtain ⟨hafter, rfl⟩ := xqueueEnqueue_shape h
  obtain ⟨hafter', rfl⟩ := xqueueEnqueue_shape h'
  rw [hafter, hafter', hshape]
  exact ⟨rfl, rfl⟩

theorem xqueueDequeue_alike {β : Type} {heap heap₁ : Heap α} {heap' heap₁' : Heap β}
    {queue queue₁ queue₁' : XQueue} {item : α} {item' : β} (hshape : shape heap = shape heap')
    (h : xqueueDequeue heap queue = .ok (some item, heap₁, queue₁))
    (h' : xqueueDequeue heap' queue = .ok (some item', heap₁', queue₁')) :
    shape heap₁ = shape heap₁' ∧ queue₁ = queue₁' := by
  obtain ⟨node, next, hhead, hnode, hafter, rfl⟩ := xqueueDequeue_shape h
  obtain ⟨node', next', hhead', hnode', hafter', rfl⟩ := xqueueDequeue_shape h'
  rw [hshape, hhead'] at hhead
  cases hhead
  rw [hshape, hnode'] at hnode
  cases hnode
  rw [hafter, hafter', hshape]
  exact ⟨rfl, rfl⟩

/-! ### Runs of the two operations -/

theorem xqueueEnqueue_head {heap heap' : Heap α} {queue queue' : XQueue} {node : Address} {data : α}
    (h : xqueueEnqueue heap queue node data = .ok (heap', queue')) : queue'.head = queue.head := by
  obtain ⟨stored, -, h⟩ := bind_eq_ok h
  cases h
  rfl

theorem xqueueDequeue_head {heap heap' : Heap α} {queue queue' : XQueue} {answer : Option α}
    (h : xqueueDequeue heap queue = .ok (answer, heap', queue')) : queue'.head = queue.head := by
  obtain ⟨dummy, -, h⟩ := bind_eq_ok h
  rcases hnext : dummy.next with _ | node
  · simp only [hnext] at h
    cases h
    rfl
  · simp only [hnext] at h
    obtain ⟨cell, -, h⟩ := bind_eq_ok h
    obtain ⟨stored, -, h⟩ := bind_eq_ok h
    cases h
    by_cases hlast : queue.tail = node
    · rw [if_pos hlast]
    · rw [if_neg hlast]

/-- A call, with the address that `malloc` returns in an `xqueue_enqueue`. -/
inductive QueueOp (α : Type) where
  | enqueue (node : Address) (data : α)
  | dequeue

/-- One call; an `xqueue_dequeue` answers the value that it stores in `*output`. -/
def queueStep : Step (Heap α × XQueue) (QueueOp α) (Option α)
  | (heap, queue), .enqueue node data => do
      let state ← xqueueEnqueue heap queue node data
      return (none, state)
  | (heap, queue), .dequeue => xqueueDequeue heap queue

/-- `malloc` returns an address that is not in use, and `xqueue_dequeue` is called
    while a node hangs behind the dummy, so that it does not wait. -/
def Admissible : Heap α × XQueue → QueueOp α → Prop
  | (heap, _), .enqueue node _ => heap node = none
  | (heap, queue), .dequeue => ∃ dummy, heap queue.head = some dummy ∧ dummy.next ≠ none

def enqueued (ops : List (QueueOp α)) : List α :=
  ops.filterMap fun
    | .enqueue _ data => some data
    | .dequeue => none

def dequeues (ops : List (QueueOp α)) : Nat :=
  ops.countP fun
    | .enqueue _ _ => false
    | .dequeue => true

theorem Holds.ne_nil {heap : Heap α} {queue : XQueue} {items : List α} (h : Holds heap queue items)
    (hadmissible : Admissible (heap, queue) .dequeue) : items ≠ [] := by
  rintro rfl
  obtain ⟨null, nodes, ⟨-, next, hdummy, hnodes⟩, -, hitems⟩ := h
  obtain rfl := List.map_eq_nil_iff.mp hitems
  obtain rfl : next = none := hnodes
  obtain ⟨dummy, hhead, hnext⟩ := hadmissible
  obtain rfl := Option.some.inj (hdummy.symm.trans hhead)
  exact hnext rfl

/-- What leaves the queue, followed by what stays in it, is what was in it followed by
    what came in. -/
theorem queueStep_eq {state : Heap α × XQueue} {items : List α} (h : Holds state.1 state.2 items)
    {op : QueueOp α} (hop : Admissible state op) :
    ∃ answer next items', queueStep state op = .ok (answer, next) ∧
      next.2.head = state.2.head ∧ Holds next.1 next.2 items' ∧
      answer.toList ++ items' = items ++ enqueued [op] ∧
      answer.toList.length = dequeues [op] := by
  obtain ⟨heap, queue⟩ := state
  cases op with
  | enqueue node data =>
    obtain ⟨heap', queue', hrun, hholds⟩ := xqueueEnqueue_eq h hop data
    refine ⟨none, (heap', queue'), items ++ [data], ?_, xqueueEnqueue_head hrun, hholds, rfl, rfl⟩
    simp only [queueStep, hrun, ok_bind, pure_eq_ok]
  | dequeue =>
    obtain ⟨item, items, rfl⟩ := List.exists_cons_of_ne_nil (h.ne_nil hop)
    obtain ⟨heap', queue', hrun, hholds⟩ := xqueueDequeue_cons h
    refine ⟨some item, (heap', queue'), items, hrun, xqueueDequeue_head hrun, hholds, ?_, rfl⟩
    exact (List.append_nil _).symm

theorem run_queueStep :
    ∀ {ops : List (QueueOp α)} {state : Heap α × XQueue} {items : List α},
      Holds state.1 state.2 items → StepsMeet queueStep Admissible state ops →
      ∃ answers final items', run queueStep state ops = .ok (answers, final) ∧
        final.2.head = state.2.head ∧ Holds final.1 final.2 items' ∧
        answers.reduceOption ++ items' = items ++ enqueued ops ∧
        answers.reduceOption.length = dequeues ops := by
  intro ops
  induction ops with
  | nil =>
    intro state items h _
    exact ⟨[], state, items, rfl, rfl, h, (List.append_nil items).symm, rfl⟩
  | cons op ops ih =>
    rintro state items h ⟨hop, hrest⟩
    obtain ⟨answer, next, items₁, hstep, hhead, hnext, hvalues, hcount⟩ := queueStep_eq h hop
    obtain ⟨answers, final, items₂, hrun, hhead', hfinal, hvalues', hcount'⟩ :=
      ih hnext (hrest answer next hstep)
    have hanswers : (answer :: answers).reduceOption = answer.toList ++ answers.reduceOption := by
      cases answer with
      | none => exact List.reduceOption_cons_of_none answers
      | some value => exact List.reduceOption_cons_of_some value answers
    refine ⟨answer :: answers, final, items₂, ?_, hhead'.trans hhead, hfinal, ?_, ?_⟩
    · simp only [run, hstep, hrun, ok_bind, pure_eq_ok]
    · have hmore : enqueued (op :: ops) = enqueued [op] ++ enqueued ops :=
        @List.filterMap_append _ _ [op] ops _
      calc (answer :: answers).reduceOption ++ items₂
          = answer.toList ++ (answers.reduceOption ++ items₂) := by
            rw [hanswers, List.append_assoc]
        _ = answer.toList ++ items₁ ++ enqueued ops := by rw [hvalues', List.append_assoc]
        _ = items ++ enqueued (op :: ops) := by rw [hvalues, hmore, List.append_assoc]
    · have hmore : dequeues (op :: ops) = dequeues [op] + dequeues ops :=
        @List.countP_append _ _ [op] ops
      rw [hanswers, List.length_append, hcount, hcount', hmore]

/-- **The queue is first-in first-out at pointer level.**  In every run from
    `xqueue_new` in which `malloc` returns unused addresses, and in which
    `xqueue_dequeue` is not called on an empty queue, no access faults; `head` is the
    dummy, following `next` from it visits distinct live nodes and ends at NULL,
    `tail` is the last of them, and the values dequeued and the values still in the
    chain are together the values enqueued, in their order. -/
theorem fifo_at_pointer_level (null : α) (dummy : Address) (ops : List (QueueOp α))
    (hops : StepsMeet queueStep Admissible (xqueueNew null dummy) ops) :
    ∃ answers heap queue, run queueStep (xqueueNew null dummy) ops = .ok (answers, heap, queue) ∧
      queue.head = dummy ∧
      (∃ (data : α) (nodes : List (Address × α)),
        Chain heap (some queue.head) ((dummy, data) :: nodes) ∧
        (dummy :: addresses nodes).Nodup ∧
        (∀ node ∈ dummy :: addresses nodes, heap node ≠ none) ∧
        queue.tail = (addresses nodes).getLastD dummy ∧ (queue.tail = dummy ↔ nodes = []) ∧
        nodes.map Prod.snd = (enqueued ops).drop (dequeues ops)) ∧
      dequeues ops ≤ (enqueued ops).length ∧
      answers.reduceOption = (enqueued ops).take (dequeues ops) := by
  obtain ⟨answers, ⟨heap, queue⟩, items, hrun, hhead, ⟨data, nodes, hchain, htail, hitems⟩, hvalues,
    hcount⟩ := run_queueStep (holds_new null dummy) hops
  obtain rfl : queue.head = dummy := hhead
  have hsplit : answers.reduceOption ++ items = enqueued ops := hvalues
  have hbound : dequeues ops ≤ (enqueued ops).length := by
    rw [← hsplit, ← hcount, List.length_append]
    exact Nat.le_add_right _ _
  refine ⟨answers, heap, queue, hrun, rfl, ⟨data, nodes, hchain, hchain.nodup, ?_, htail, ?_, ?_⟩,
    hbound, ?_⟩
  · intro node hnode
    exact hchain.live hnode
  · rw [htail]
    exact hchain.last_eq_first_iff
  · rw [hitems, ← hsplit, ← hcount, List.drop_left]
  · rw [← hsplit, ← hcount, List.take_left]

/-- The address of the first node is handed out again after the node was freed. -/
theorem fifo_reused_address :
    StepsMeet queueStep Admissible (xqueueNew 0 7)
        [.enqueue 1 10, .dequeue, .enqueue 1 20, .enqueue 2 30] ∧
      ∃ answers heap queue, run queueStep (xqueueNew 0 7)
          [.enqueue 1 10, .dequeue, .enqueue 1 20, .enqueue 2 30] = .ok (answers, heap, queue) ∧
        answers.reduceOption = [10] := by
  have hops : StepsMeet queueStep Admissible (xqueueNew 0 7)
      [.enqueue 1 10, .dequeue, .enqueue 1 20, .enqueue 2 30] := by
    apply (stepsMeet_cons queueStep rfl).mpr
    refine ⟨rfl, (stepsMeet_cons queueStep rfl).mpr ⟨⟨_, rfl, Option.some_ne_none 1⟩, ?_⟩⟩
    refine (stepsMeet_cons queueStep rfl).mpr ⟨rfl, ?_⟩
    exact (stepsMeet_cons queueStep rfl).mpr ⟨rfl, trivial⟩
  obtain ⟨answers, heap, queue, hrun, -, -, -, hanswers⟩ := fifo_at_pointer_level 0 7 _ hops
  exact ⟨hops, answers, heap, queue, hrun, hanswers⟩

end Cdht.WorkQueue
