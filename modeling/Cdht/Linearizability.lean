/-
  Cdht/Linearizability.lean
  =========================
  **Linearizability, as traces of an atomic object.**

  Threads call operations of a shared object and get replies, and all that can be
  seen from outside is the history of these calls and returns.  The atomic object
  executes each operation in one step, at some moment between its call and its
  return, with the effect and the reply of a sequential specification.  A history is
  linearizable if the atomic object has it, too.

  `trace_of_simulation` is the rule to prove it: every step of an object that
  may have any number of small steps is a call, a return, the moment in which an
  operation takes effect, or nothing that the atomic object notices.  The atomic
  object keeps a log of the operations in the order in which they took effect, and
  their replies are those of the sequential run of that log (`Trace.sequential`).
-/
import Cdht.Machine

namespace Cdht.Linearizability

open Cdht.Memory Cdht.Machine

variable {T τ ι ο σ μ : Type}

/-! ### The atomic object -/

inductive Event (T ι ο : Type) where
  | call (thread : T) (op : ι)
  | ret (thread : T) (reply : ο)
deriving DecidableEq

/-- A thread outside an operation, in one that has not taken effect yet, or in one that
    has and will return `reply`. -/
inductive Status (ι ο : Type) where
  | idle
  | called (op : ι)
  | done (reply : ο)

structure Atomic (T τ ι ο : Type) where
  state : τ
  status : T → Status ι ο
  log : List (T × ι × ο)

def Atomic.start (init : τ) : Atomic T τ ι ο := ⟨init, fun _ => .idle, []⟩

/-- What the object knows of a thread that is in the operation `current`. -/
def Atomic.Follows (atomic : Atomic T τ ι ο) (thread : T) (current : Option ι) : Prop :=
  match current with
  | none => atomic.status thread = .idle
  | some op => atomic.status thread = .called op ∨
      ∃ reply, atomic.status thread = .done reply ∧ (thread, op, reply) ∈ atomic.log

theorem Atomic.Follows.mono {atomic atomic' : Atomic T τ ι ο} {thread : T} {current : Option ι}
    (h : atomic.Follows thread current)
    (hstatus : atomic'.status thread = atomic.status thread)
    (hlog : ∀ entry ∈ atomic.log, entry ∈ atomic'.log) : atomic'.Follows thread current := by
  cases current with
  | none => exact hstatus.trans h
  | some op =>
    rcases h with hcalled | ⟨reply, hdone, hmem⟩
    · exact Or.inl (hstatus.trans hcalled)
    · exact Or.inr ⟨reply, hstatus.trans hdone, hlog _ hmem⟩

section Traces

variable [DecidableEq T] (astep : AStep τ ι ο)

def Atomic.setStatus (atomic : Atomic T τ ι ο) (thread : T) (status : Status ι ο) :
    Atomic T τ ι ο :=
  { atomic with status := Function.update atomic.status thread status }

/-- The operation takes effect, all at once. -/
def Atomic.effect (atomic : Atomic T τ ι ο) (thread : T) (op : ι) : Atomic T τ ι ο where
  state := (astep atomic.state op).2
  status := Function.update atomic.status thread (.done (astep atomic.state op).1)
  log := atomic.log ++ [(thread, op, (astep atomic.state op).1)]

/-- One step of the atomic object, and what can be seen of it. -/
inductive AtomicStep (atomic : Atomic T τ ι ο) :
    Option (Event T ι ο) → Atomic T τ ι ο → Prop where
  | stutter : AtomicStep atomic none atomic
  | call (thread : T) (op : ι) (hidle : atomic.status thread = .idle) :
      AtomicStep atomic (some (.call thread op)) (atomic.setStatus thread (.called op))
  | effect (thread : T) (op : ι) (hcalled : atomic.status thread = .called op) :
      AtomicStep atomic none (atomic.effect astep thread op)
  | ret (thread : T) (reply : ο) (hdone : atomic.status thread = .done reply) :
      AtomicStep atomic (some (.ret thread reply)) (atomic.setStatus thread .idle)

inductive Trace (init : Atomic T τ ι ο) : List (Event T ι ο) → Atomic T τ ι ο → Prop where
  | nil : Trace init [] init
  | snoc {history : List (Event T ι ο)} {atomic atomic' : Atomic T τ ι ο}
      {seen : Option (Event T ι ο)} (htrace : Trace init history atomic)
      (hstep : AtomicStep astep atomic seen atomic') : Trace init (history ++ seen.toList) atomic'

/-! ### What a trace says about its log -/

variable {astep}

/-- **The log is a sequential run**: one operation at a time, in this order, gives these
    replies and leads to this state. -/
theorem Trace.sequential {init : τ} {history : List (Event T ι ο)} {atomic : Atomic T τ ι ο}
    (htrace : Trace astep (.start init) history atomic) :
    arun astep init (atomic.log.map fun entry => entry.2.1) =
      (atomic.log.map fun entry => entry.2.2, atomic.state) := by
  induction htrace with
  | nil => rfl
  | snoc _ hstep ih =>
    cases hstep with
    | stutter => exact ih
    | call thread op hidle => exact ih
    | effect thread op hcalled =>
      simp only [Atomic.effect, List.map_append, List.map_cons, List.map_nil, arun_concat, ih]
    | ret thread reply hdone => exact ih

/-! ### Completed operations -/

def Event.pending (thread : T) (current : Option ι) : Event T ι ο → Option ι
  | .call other op => if other = thread then some op else current
  | .ret other _ => if other = thread then none else current

/-- The operation that the thread is in after a history. -/
def pending (thread : T) (history : List (Event T ι ο)) : Option ι :=
  history.foldl (Event.pending thread) none

/-- The thread has called `op` and has returned from it with `reply`. -/
def Completed (history : List (Event T ι ο)) (thread : T) (op : ι) (reply : ο) : Prop :=
  ∃ before after, history = before ++ .ret thread reply :: after ∧
    pending thread before = some op

theorem pending_concat (thread : T) (history : List (Event T ι ο)) (event : Event T ι ο) :
    pending thread (history ++ [event]) = event.pending thread (pending thread history) := by
  simp only [pending, List.foldl_append, List.foldl_cons, List.foldl_nil]

/-- A return that is the last event of the history, or an earlier one. -/
theorem completed_concat {history : List (Event T ι ο)} {event : Event T ι ο} {thread : T}
    {op : ι} {reply : ο} (h : Completed (history ++ [event]) thread op reply) :
    (event = .ret thread reply ∧ pending thread history = some op) ∨
      Completed history thread op reply := by
  obtain ⟨before, after, hsplit, hpending⟩ := h
  rcases List.eq_nil_or_concat after with rfl | ⟨after, last, rfl⟩
  · obtain ⟨rfl, hevent⟩ := List.append_inj' hsplit rfl
    exact Or.inl ⟨List.head_eq_of_cons_eq hevent, hpending⟩
  · have hsplit' : history ++ [event] = (before ++ .ret thread reply :: after) ++ [last] := by
      simpa only [List.append_assoc, List.cons_append, List.concat_eq_append] using hsplit
    obtain ⟨hhistory, -⟩ := List.append_inj' hsplit' rfl
    exact Or.inr ⟨before, after, hhistory, hpending⟩

theorem Trace.follows {init : τ} {history : List (Event T ι ο)} {atomic : Atomic T τ ι ο}
    (htrace : Trace astep (.start init) history atomic) (thread : T) :
    atomic.Follows thread (pending thread history) := by
  induction htrace with
  | nil => rfl
  | @snoc history atomic atomic' seen _ hstep ih =>
    cases hstep with
    | stutter => simpa only [Option.toList_none, List.append_nil] using ih
    | call caller op hidle =>
      simp only [Option.toList_some, pending_concat, Event.pending]
      by_cases heq : caller = thread
      · subst heq
        simp only [if_true]
        exact Or.inl (Function.update_self ..)
      · have hne : thread ≠ caller := fun h => heq h.symm
        simp only [heq, if_false]
        exact ih.mono (Function.update_of_ne hne ..) fun _ hentry => hentry
    | effect caller op hcalled =>
      simp only [Option.toList_none, List.append_nil]
      by_cases heq : caller = thread
      · subst heq
        cases hcurrent : pending caller history with
        | none => simp only [hcurrent, Atomic.Follows, hcalled, reduceCtorEq] at ih
        | some current =>
          simp only [hcurrent, Atomic.Follows, hcalled, Status.called.injEq, reduceCtorEq,
            false_and, exists_false, or_false] at ih
          subst ih
          refine Or.inr ⟨_, Function.update_self .., ?_⟩
          exact List.mem_append_right _ (List.mem_singleton.mpr rfl)
      · have hne : thread ≠ caller := fun h => heq h.symm
        exact ih.mono (Function.update_of_ne hne ..) fun _ hentry =>
          List.mem_append_left _ hentry
    | ret caller reply hdone =>
      simp only [Option.toList_some, pending_concat, Event.pending]
      by_cases heq : caller = thread
      · subst heq
        simp only [if_true]
        exact Function.update_self ..
      · have hne : thread ≠ caller := fun h => heq h.symm
        simp only [heq, if_false]
        exact ih.mono (Function.update_of_ne hne ..) fun _ hentry => hentry

/-- **Completed operations are in the log**, with the replies they gave. -/
theorem Trace.completed {init : τ} {history : List (Event T ι ο)} {atomic : Atomic T τ ι ο}
    (htrace : Trace astep (.start init) history atomic) {thread : T} {op : ι} {reply : ο}
    (h : Completed history thread op reply) : (thread, op, reply) ∈ atomic.log := by
  induction htrace with
  | nil =>
    obtain ⟨before, after, hsplit, -⟩ := h
    cases before with
    | nil => cases hsplit
    | cons event before => cases hsplit
  | @snoc history atomic atomic' seen htrace hstep ih =>
    cases hstep with
    | stutter =>
      simp only [Option.toList_none, List.append_nil] at h
      exact ih h
    | call caller called hidle =>
      rcases completed_concat h with ⟨hevent, -⟩ | hearlier
      · cases hevent
      · exact ih hearlier
    | effect caller called hcalled =>
      simp only [Option.toList_none, List.append_nil] at h
      exact List.mem_append_left _ (ih h)
    | ret caller given hdone =>
      rcases completed_concat h with ⟨hevent, hpending⟩ | hearlier
      · cases hevent
        -- the thread was in this operation, and the reply was due
        have hfollows := htrace.follows thread
        simp only [hpending, Atomic.Follows, hdone, reduceCtorEq, false_or,
          Status.done.injEq] at hfollows
        obtain ⟨_, rfl, hmem⟩ := hfollows
        exact hmem
      · exact ih hearlier

/-- Each reply in the log is what the sequential specification gives in some state. -/
theorem Trace.reply {init : τ} {history : List (Event T ι ο)} {atomic : Atomic T τ ι ο}
    (htrace : Trace astep (.start init) history atomic) :
    ∀ entry ∈ atomic.log, ∃ state, entry.2.2 = (astep state entry.2.1).1 := by
  induction htrace with
  | nil =>
    intro entry hentry
    cases hentry
  | @snoc history atomic atomic' seen _ hstep ih =>
    cases hstep with
    | stutter => exact ih
    | call thread op hidle => exact ih
    | effect thread op hcalled =>
      intro entry hentry
      rcases List.mem_append.mp hentry with hold | hnew
      · exact ih entry hold
      · obtain rfl := List.mem_singleton.mp hnew
        exact ⟨atomic.state, rfl⟩
    | ret thread reply hdone => exact ih

end Traces

/-! ### Simulation -/

section Simulation

variable [DecidableEq T] (astep : AStep τ ι ο) (step : Step σ μ (Option (Event T ι ο)))
  (R : σ → Atomic T τ ι ο → Prop)

/-- **Simulation rule.**  If every step of an object returns and is a step of the atomic
    object, seen in the same way, then so is every run. -/
theorem trace_of_simulation
    (hstep : ∀ state move atomic, R state atomic → ∃ seen state' atomic',
      step state move = .ok (seen, state') ∧ AtomicStep astep atomic seen atomic' ∧
        R state' atomic') {init : Atomic T τ ι ο} :
    ∀ (moves : List μ) (state : σ) (history : List (Event T ι ο)) (atomic : Atomic T τ ι ο),
      R state atomic → Trace astep init history atomic →
      ∃ seen state' atomic', run step state moves = .ok (seen, state') ∧
        Trace astep init (history ++ seen.flatMap Option.toList) atomic' ∧ R state' atomic' := by
  intro moves
  induction moves with
  | nil =>
    intro state history atomic hR htrace
    refine ⟨[], state, atomic, rfl, ?_, hR⟩
    simpa only [List.flatMap_nil, List.append_nil] using htrace
  | cons move moves ih =>
    intro state history atomic hR htrace
    obtain ⟨first, next, atomic', hrun, hatomic, hnext⟩ := hstep state move atomic hR
    obtain ⟨rest, final, last, hrest, hlast, hfinal⟩ :=
      ih next (history ++ first.toList) atomic' hnext (htrace.snoc hatomic)
    refine ⟨first :: rest, final, last, ?_, ?_, hfinal⟩
    · simp only [run, hrun, hrest, ok_bind, pure_eq_ok]
    · simpa only [List.flatMap_cons, List.append_assoc] using hlast

end Simulation

end Cdht.Linearizability
