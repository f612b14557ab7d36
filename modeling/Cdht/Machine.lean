/-
  Cdht/Machine.lean
  =================
  **Runs of an object under a sequence of calls: invariants and refinement.**

  An object with state `σ` is used through calls `ι` that answer outputs `ο`.
  The concrete object is a `Step`, which may fault; the abstract one is an
  `AStep`, which cannot.  The file has the rules the developments built on it
  need:

    * `run_refines`      — a step-wise simulation gives equal outputs over whole
                           runs, and in particular no run faults;
    * `run_invariant`    — what every step keeps holds after every run;
    * `along_of_meet`    — what a step keeps under a condition on the call and the
                           state before it holds in every state of a run whose
                           steps all meet the condition;
    * `along_iff`        — when a step keeps an invariant exactly under a
                           condition on the call and the state before it, a run
                           stays inside the invariant exactly when all its steps
                           meet the condition;
    * `length_le_of_descent`, `exists_rest_of_descent` — calls that bring a bound down
                           come to an end;
    * `run_observed`     — a record that every step extends by what it meets is, after
                           a run, what the run has met;
    * `run_follows`      — a simulation in which the other object may stand still.

  The last section is about channels that lose and copy messages.
-/
import Cdht.Memory

namespace Cdht.Machine

open Cdht.Memory

variable {σ τ ι ο : Type}

abbrev Step (σ ι ο : Type) := σ → ι → Exec (ο × σ)

abbrev AStep (τ ι ο : Type) := τ → ι → ο × τ

def run (step : Step σ ι ο) : σ → List ι → Exec (List ο × σ)
  | state, [] => .ok ([], state)
  | state, call :: calls => do
      let (output, state) ← step state call
      let (outputs, state) ← run step state calls
      return (output :: outputs, state)

def arun (astep : AStep τ ι ο) : τ → List ι → List ο × τ
  | state, [] => ([], state)
  | state, call :: calls =>
      let (output, state) := astep state call
      let (outputs, state) := arun astep state calls
      (output :: outputs, state)

theorem run_cons (step : Step σ ι ο) {state next final : σ} {call : ι} {calls : List ι} {output : ο}
    {outputs : List ο} (hcall : step state call = .ok (output, next))
    (hrest : run step next calls = .ok (outputs, final)) :
    run step state (call :: calls) = .ok (output :: outputs, final) := by
  simp only [run, hcall, hrest, ok_bind, pure_eq_ok]

/-! ### Refinement -/

section Refinement

variable (step : Step σ ι ο) (astep : AStep τ ι ο) (R : σ → τ → Prop) (admissible : ι → Prop)

/-- **Simulation rule.**  If every admissible call on related states answers what
    the abstract object answers and leads to related states again, then every run
    of admissible calls does. -/
theorem run_refines
    (hstep : ∀ state astate call, R state astate → admissible call →
      ∃ state', step state call = .ok ((astep astate call).1, state') ∧
        R state' (astep astate call).2) :
    ∀ (calls : List ι) (state : σ) (astate : τ), R state astate →
      (∀ call ∈ calls, admissible call) →
      ∃ state', run step state calls = .ok ((arun astep astate calls).1, state') ∧
        R state' (arun astep astate calls).2 := by
  intro calls
  induction calls with
  | nil => intro state astate hR _; exact ⟨state, rfl, hR⟩
  | cons call calls ih =>
    intro state astate hR hadmissible
    obtain ⟨next, hcall, hnext⟩ :=
      hstep state astate call hR (hadmissible call List.mem_cons_self)
    obtain ⟨final, hrest, hfinal⟩ := ih next (astep astate call).2 hnext
      (fun other hother => hadmissible other (List.mem_cons_of_mem call hother))
    refine ⟨final, ?_, hfinal⟩
    rw [run, hcall, ok_bind]
    simp only [hrest, ok_bind, pure_eq_ok]
    rfl

end Refinement

/-! ### Abstract runs -/

section AbstractRuns

variable (astep : AStep τ ι ο)

theorem arun_state (calls : List ι) (state : τ) :
    (arun astep state calls).2 = calls.foldl (fun state call => (astep state call).2) state := by
  induction calls generalizing state with
  | nil => rfl
  | cons call calls ih => exact ih (astep state call).2

theorem arun_concat (calls : List ι) (call : ι) (state : τ) :
    arun astep state (calls ++ [call]) =
      ((arun astep state calls).1 ++ [(astep (arun astep state calls).2 call).1],
        (astep (arun astep state calls).2 call).2) := by
  induction calls generalizing state with
  | nil => rfl
  | cons first calls ih => simp only [List.cons_append, arun, ih]

theorem arun_output (calls : List ι) (state : τ) (position : Nat) :
    (arun astep state calls).1[position]? =
      (calls[position]?).map
        (fun call => (astep (arun astep state (calls.take position)).2 call).1) := by
  induction calls generalizing state position with
  | nil => simp [arun]
  | cons call calls ih =>
    cases position with
    | zero => simp [arun]
    | succ position => simpa [arun] using ih (astep state call).2 position

end AbstractRuns

/-! ### Invariants -/

section Invariants

variable (step : Step σ ι ο) (P : σ → Prop)

/-- `P` holds in every state that a run passes through, the first one included. -/
def Along : σ → List ι → Prop
  | state, [] => P state
  | state, call :: calls =>
      P state ∧ ∀ output next, step state call = .ok (output, next) → Along next calls

/-- Every call of a run meets `condition` in the state in which it is made. -/
def StepsMeet (condition : σ → ι → Prop) : σ → List ι → Prop
  | _, [] => True
  | state, call :: calls =>
      condition state call ∧
        ∀ output next, step state call = .ok (output, next) → StepsMeet condition next calls

theorem stepsMeet_cons {condition : σ → ι → Prop} {state next : σ} {call : ι} {calls : List ι}
    {output : ο} (hcall : step state call = .ok (output, next)) :
    StepsMeet step condition state (call :: calls) ↔
      condition state call ∧ StepsMeet step condition next calls := by
  constructor
  · rintro ⟨hcondition, hrest⟩
    exact ⟨hcondition, hrest output next hcall⟩
  · rintro ⟨hcondition, hrest⟩
    refine ⟨hcondition, ?_⟩
    intro output' next' hcall'
    rw [hcall] at hcall'
    cases hcall'
    exact hrest

theorem Along.start {state : σ} {calls : List ι} (h : Along step P state calls) : P state := by
  cases calls with
  | nil => exact h
  | cons call calls => exact h.1

theorem Along.final {P : σ → Prop} :
    ∀ {calls : List ι} {state final : σ} {outputs : List ο}, Along step P state calls →
      run step state calls = .ok (outputs, final) → P final := by
  intro calls
  induction calls with
  | nil =>
    intro state final outputs h hrun
    cases hrun
    exact h
  | cons call calls ih =>
    intro state final outputs h hrun
    obtain ⟨⟨output, next⟩, hcall, hrun⟩ := bind_eq_ok hrun
    obtain ⟨⟨rest, last⟩, hrest, hrun⟩ := bind_eq_ok hrun
    cases hrun
    exact ih (h.2 output next hcall) hrest

theorem stepsMeet_of_forall {condition : σ → ι → Prop} :
    ∀ {calls : List ι}, (∀ state, ∀ call ∈ calls, condition state call) →
      ∀ state, StepsMeet step condition state calls := by
  intro calls
  induction calls with
  | nil =>
    intro _ state
    trivial
  | cons call calls ih =>
    intro h state
    refine ⟨h state call List.mem_cons_self, ?_⟩
    intro output next _
    apply ih
    intro other call' hcall'
    exact h other call' (List.mem_cons_of_mem call hcall')

theorem Along.mono {P Q : σ → Prop} (h : ∀ state, P state → Q state) :
    ∀ (calls : List ι) (state : σ), Along step P state calls → Along step Q state calls := by
  intro calls
  induction calls with
  | nil =>
    intro state hP
    exact h state hP
  | cons call calls ih =>
    rintro state ⟨hP, hrest⟩
    exact ⟨h state hP, fun output next hcall => ih next (hrest output next hcall)⟩

/-- **Conditional invariant rule.**  If a call that meets `condition` keeps `P`, then
    `P` holds in every state of a run whose calls all meet it. -/
theorem along_of_meet (condition : σ → ι → Prop)
    (hstep : ∀ state call output next, P state → condition state call →
      step state call = .ok (output, next) → P next) :
    ∀ (calls : List ι) (state : σ), P state → StepsMeet step condition state calls →
      Along step P state calls := by
  intro calls
  induction calls with
  | nil =>
    intro state hP _
    exact hP
  | cons call calls ih =>
    rintro state hP ⟨hcondition, hrest⟩
    refine ⟨hP, ?_⟩
    intro output next hcall
    exact ih next (hstep state call output next hP hcondition hcall) (hrest output next hcall)

/-- **Invariant rule.**  What every call keeps holds after every run. -/
theorem run_invariant
    (hstep : ∀ state call output next, P state → step state call = .ok (output, next) → P next) :
    ∀ (calls : List ι) (state : σ) (outputs : List ο) (final : σ), P state →
      run step state calls = .ok (outputs, final) → P final := by
  intro calls state outputs final hP hrun
  have halong : Along step P state calls := by
    refine along_of_meet step P (fun _ _ => True) ?_ calls state hP ?_
    · intro state call output next hP _ hcall
      exact hstep state call output next hP hcall
    · exact stepsMeet_of_forall step (fun _ _ _ => trivial) state
  exact halong.final step hrun

/-- **Exact-condition rule.**  If, from a state with `P`, a call leads to a state
    with `P` exactly when it meets `condition`, then a run that starts in `P` stays
    in `P` exactly when all its calls meet `condition`. -/
theorem along_iff (condition : σ → ι → Prop)
    (htotal : ∀ state call, P state → ∃ output next, step state call = .ok (output, next))
    (hstep : ∀ state call output next, P state → step state call = .ok (output, next) →
      (P next ↔ condition state call)) :
    ∀ (calls : List ι) (state : σ),
      Along step P state calls ↔ P state ∧ StepsMeet step condition state calls := by
  intro calls state
  constructor
  · induction calls generalizing state with
    | nil =>
      intro hP
      exact ⟨hP, trivial⟩
    | cons call calls ih =>
      rintro ⟨hP, hrest⟩
      obtain ⟨output, next, hcall⟩ := htotal state call hP
      have hnext : P next := (hrest output next hcall).start
      refine ⟨hP, (hstep state call output next hP hcall).mp hnext, ?_⟩
      intro output' next' hcall'
      exact (ih next' (hrest output' next' hcall')).2
  · rintro ⟨hP, hmeet⟩
    refine along_of_meet step P condition ?_ calls state hP hmeet
    intro state call output next hP hcondition hcall
    exact (hstep state call output next hP hcall).mpr hcondition

/-- **Progress rule.**  If every call on a state with `P` returns and leads to a state
    with `P`, then every run does. -/
theorem run_total_of_invariant
    (hstep : ∀ state call, P state → ∃ output next, step state call = .ok (output, next) ∧ P next) :
    ∀ (calls : List ι) (state : σ), P state → ∃ outputs final,
      run step state calls = .ok (outputs, final) ∧ P final := by
  intro calls
  induction calls with
  | nil =>
    intro state hP
    exact ⟨[], state, rfl, hP⟩
  | cons call calls ih =>
    intro state hP
    obtain ⟨output, next, hcall, hnext⟩ := hstep state call hP
    obtain ⟨outputs, final, hrest, hfinal⟩ := ih next hnext
    refine ⟨output :: outputs, final, ?_, hfinal⟩
    rw [run, hcall, ok_bind]
    simp only [hrest, ok_bind, pure_eq_ok]

theorem run_total (htotal : ∀ state call, ∃ output next, step state call = .ok (output, next))
    (calls : List ι) (state : σ) : ∃ outputs final, run step state calls = .ok (outputs, final) := by
  obtain ⟨outputs, final, hrun, -⟩ := run_total_of_invariant step (fun _ => True)
    (fun state call _ =>
      let ⟨output, next, hcall⟩ := htotal state call
      ⟨output, next, hcall, trivial⟩)
    calls state trivial
  exact ⟨outputs, final, hrun⟩

/-- **Descent rule.**  If every call that meets `condition` returns and brings a bound
    down, then no run of such calls is longer than the bound it starts with. -/
theorem length_le_of_descent {Q : Nat → σ → Prop} {condition : σ → ι → Prop}
    (hstep : ∀ bound state call, Q bound state → condition state call →
      ∃ output next bound', step state call = .ok (output, next) ∧ bound' < bound ∧ Q bound' next) :
    ∀ (calls : List ι) (bound : Nat) (state : σ), Q bound state →
      StepsMeet step condition state calls → calls.length ≤ bound := by
  intro calls
  induction calls with
  | nil =>
    intro bound state _ _
    exact Nat.zero_le bound
  | cons call calls ih =>
    rintro bound state hQ ⟨hcondition, hrest⟩
    obtain ⟨output, next, bound', hcall, hless, hnext⟩ := hstep bound state call hQ hcondition
    have hlength := ih bound' next hnext (hrest output next hcall)
    rw [List.length_cons]
    omega

/-- **Rest rule.**  Under the same condition, some run of such calls ends in a state in
    which no call meets it. -/
theorem exists_rest_of_descent {Q : Nat → σ → Prop} {condition : σ → ι → Prop}
    (hstep : ∀ bound state call, Q bound state → condition state call →
      ∃ output next bound', step state call = .ok (output, next) ∧ bound' < bound ∧ Q bound' next) :
    ∀ (bound : Nat) (state : σ), Q bound state → ∃ calls outputs final,
      StepsMeet step condition state calls ∧ run step state calls = .ok (outputs, final) ∧
      ∀ call, ¬ condition final call := by
  intro bound
  induction bound using Nat.strongRecOn with
  | ind bound ih =>
    intro state hQ
    by_cases hrest : ∀ call, ¬ condition state call
    · exact ⟨[], [], state, trivial, rfl, hrest⟩
    · simp only [Classical.not_forall, Classical.not_not] at hrest
      obtain ⟨call, hcondition⟩ := hrest
      obtain ⟨output, next, bound', hcall, hless, hnext⟩ := hstep bound state call hQ hcondition
      obtain ⟨calls, outputs, final, hmeet, hrun, hfinal⟩ := ih bound' hless next hnext
      refine ⟨call :: calls, output :: outputs, final, ?_, ?_, hfinal⟩
      · exact (stepsMeet_cons step hcall).mpr ⟨hcondition, hmeet⟩
      · simp only [run, hcall, hrun, ok_bind, pure_eq_ok]

end Invariants

/-! ### What a run meets -/

section Observations

variable {ε : Type} (step : Step σ ι ο) (observe : σ → ι → List ε)

/-- What the calls of a run meet, each in the state in which it is made. -/
def observed : σ → List ι → List ε
  | _, [] => []
  | state, call :: calls =>
      observe state call ++
        match step state call with
        | .ok (_, next) => observed next calls
        | .error _ => []

/-- **Record rule.**  If every call appends what it meets to a record, then a run appends
    what its calls meet. -/
theorem run_observed (record : σ → List ε)
    (hstep : ∀ state call output next, step state call = .ok (output, next) →
      record next = record state ++ observe state call) :
    ∀ (calls : List ι) (state : σ) (outputs : List ο) (final : σ),
      run step state calls = .ok (outputs, final) →
      record final = record state ++ observed step observe state calls := by
  intro calls
  induction calls with
  | nil =>
    intro state outputs final hrun
    cases hrun
    exact (List.append_nil _).symm
  | cons call calls ih =>
    intro state outputs final hrun
    obtain ⟨⟨output, next⟩, hcall, hrun⟩ := bind_eq_ok hrun
    obtain ⟨⟨rest, last⟩, hrest, hrun⟩ := bind_eq_ok hrun
    cases hrun
    simp only [observed, hcall]
    rw [ih next _ _ hrest, hstep state call output next hcall, List.append_assoc]

end Observations

/-! ### Stuttering simulation -/

section Simulation

variable {κ ο' : Type} (step : Step σ ι ο) (step' : Step τ κ ο') (R : σ → τ → Prop)

/-- The outcome of a step is one that the other object can follow: a state that is
    related to its present one or to one it can step to, or a fault that it can have,
    too. -/
def Follows (astate : τ) : Exec (ο × σ) → Prop
  | .ok (_, next) => R next astate ∨
      ∃ call output anext, step' astate call = .ok (output, anext) ∧ R next anext
  | .error fault => ∃ call, step' astate call = .error fault

/-- **Stuttering simulation rule.**  If every step can be followed, then every run can,
    by a run of the other object or by one that has the same fault. -/
theorem run_follows
    (hstep : ∀ state astate call, R state astate → Follows step' R astate (step state call)) :
    ∀ (calls : List ι) (state : σ) (astate : τ), R state astate →
      match run step state calls with
      | .ok (_, final) => ∃ calls' outputs' afinal,
          run step' astate calls' = .ok (outputs', afinal) ∧ R final afinal
      | .error fault => ∃ calls', run step' astate calls' = .error fault := by
  intro calls
  induction calls with
  | nil =>
    intro state astate hR
    exact ⟨[], [], astate, rfl, hR⟩
  | cons call calls ih =>
    intro state astate hR
    have hfollows := hstep state astate call hR
    rcases hcall : step state call with fault | ⟨output, next⟩
    · rw [hcall] at hfollows
      obtain ⟨call', hfault⟩ := hfollows
      simp only [run, hcall, error_bind]
      exact ⟨[call'], by simp only [run, hfault, error_bind]⟩
    rw [hcall] at hfollows
    -- the run of the other object from its present state or from the next one
    have hgoes : ∃ front outputs anext, R next anext ∧ ∀ calls',
        run step' astate (front ++ calls') =
          (run step' anext calls').map fun result => (outputs ++ result.1, result.2) := by
      rcases hfollows with hstays | ⟨call', output', anext, hcall', hnext⟩
      · refine ⟨[], [], astate, hstays, fun calls' => ?_⟩
        rw [List.nil_append]
        rcases run step' astate calls' with fault | ⟨outputs, afinal⟩
        · rfl
        · rfl
      · refine ⟨[call'], [output'], anext, hnext, fun calls' => ?_⟩
        simp only [List.singleton_append, run, hcall', ok_bind]
        rcases run step' anext calls' with fault | ⟨outputs, afinal⟩
        · rfl
        · rfl
    obtain ⟨front, outputs, anext, hnext, hrun⟩ := hgoes
    have hrest := ih next anext hnext
    simp only [run, hcall, ok_bind]
    rcases hcalls : run step next calls with fault | ⟨rest, final⟩
    · simp only [hcalls] at hrest
      obtain ⟨calls', hfault⟩ := hrest
      exact ⟨front ++ calls', by rw [hrun, hfault]; rfl⟩
    · simp only [hcalls] at hrest
      obtain ⟨calls', outputs', afinal, hcalls', hfinal⟩ := hrest
      exact ⟨front ++ calls', outputs ++ outputs', afinal, by rw [hrun, hcalls']; rfl, hfinal⟩

end Simulation

/-! ### Lossy channels -/

section Channels

variable {α : Type}

def lose (wire : List α) (index : Nat) : List α := wire.eraseIdx index

def copy (wire : List α) (index : Nat) : List α := wire ++ wire[index]?.toList

theorem mem_of_mem_lose {wire : List α} {index : Nat} {message : α} (h : message ∈ lose wire index) :
    message ∈ wire := List.mem_of_mem_eraseIdx h

theorem mem_of_mem_copy {wire : List α} {index : Nat} {message : α} (h : message ∈ copy wire index) :
    message ∈ wire := by
  rcases List.mem_append.mp h with h | h
  · exact h
  · exact List.mem_of_getElem? (Option.mem_toList.mp h)

end Channels

end Cdht.Machine
