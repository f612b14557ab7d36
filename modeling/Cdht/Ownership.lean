/-
  Cdht/Ownership.lean
  ===================
  **Allocated objects, and who owns them.**

  A ledger lists the objects that are live, each with its address.  Allocating adds an
  object at an address that is not in use, freeing takes one away, and using or freeing
  what is not live is a fault, so that a use after free and a double free are faults.
  Which address an allocation returns is up to an `Allocator`, which knows how often it
  was called and what is live; a freed address may be handed out again.

  `Owns ledger objects` says that `objects` is all there is.  Every operation has a rule
  that names the object it works on and leaves the rest as it is.  `Agrees` relates a
  computation in memory to the one on values that it stands for, and `run_agrees` does so
  for whole runs.
-/
import Cdht.LinkedCells
import Cdht.Machine
import Mathlib.Data.Multiset.AddSub
import Mathlib.Data.Multiset.Filter
import Mathlib.Data.Multiset.MapFold

namespace Cdht.Ownership

open Cdht.Memory Cdht.LinkedCells Cdht.Machine

variable {ω : Type}

/-! ### The operations -/

/-- What `malloc` returns, by the number of calls before this one and the live objects. -/
structure Allocator (ω : Type) where
  address : Nat → List (Address × ω) → Address
  unused : ∀ calls live, address calls live ∉ live.map Prod.fst

structure Ledger (ω : Type) where
  live : List (Address × ω)
  calls : Nat
  nodup : (live.map Prod.fst).Nodup

theorem nodup_allocate (allocator : Allocator ω) (ledger : Ledger ω) (object : ω) :
    (((allocator.address ledger.calls ledger.live, object) :: ledger.live).map Prod.fst).Nodup :=
  List.nodup_cons.mpr ⟨allocator.unused _ _, ledger.nodup⟩

/-- `malloc` for an object with the given first content. -/
def allocate (allocator : Allocator ω) (ledger : Ledger ω) (object : ω) : Address × Ledger ω :=
  (allocator.address ledger.calls ledger.live,
    ⟨(allocator.address ledger.calls ledger.live, object) :: ledger.live, ledger.calls + 1,
      nodup_allocate allocator ledger object⟩)

def fetch (ledger : Ledger ω) (address : Address) : Exec ω :=
  match ledger.live.lookup address with
  | some object => .ok object
  | none => .error (.outOfBounds address)

/-- The entry of the address with another content. -/
def renewed (address : Address) (object : ω) (entry : Address × ω) : Address × ω :=
  if entry.1 = address then (address, object) else entry

theorem fst_renewed (address : Address) (object : ω) (entry : Address × ω) :
    (renewed address object entry).1 = entry.1 := by
  by_cases h : entry.1 = address
  · rw [renewed, if_pos h, h]
  · rw [renewed, if_neg h]

theorem nodup_renewed (ledger : Ledger ω) (address : Address) (object : ω) :
    ((ledger.live.map (renewed address object)).map Prod.fst).Nodup := by
  have hkeys : Prod.fst ∘ renewed address object = Prod.fst :=
    funext (fst_renewed address object)
  rw [List.map_map, hkeys]
  exact ledger.nodup

def overwrite (ledger : Ledger ω) (address : Address) (object : ω) : Exec (Ledger ω) := do
  let _ ← fetch ledger address
  return ⟨ledger.live.map (renewed address object), ledger.calls, nodup_renewed ledger address object⟩

theorem nodup_without (ledger : Ledger ω) (address : Address) :
    ((ledger.live.filter fun entry => entry.1 ≠ address).map Prod.fst).Nodup :=
  ledger.nodup.sublist (List.filter_sublist.map Prod.fst)

def free (ledger : Ledger ω) (address : Address) : Exec (Ledger ω) := do
  let _ ← fetch ledger address
  return ⟨ledger.live.filter fun entry => entry.1 ≠ address, ledger.calls,
    nodup_without ledger address⟩

/-! ### Ownership -/

def Owns (ledger : Ledger ω) (objects : Multiset (Address × ω)) : Prop :=
  (ledger.live : Multiset (Address × ω)) = objects

theorem Owns.allocate {ledger ledger' : Ledger ω} {objects : Multiset (Address × ω)}
    (h : Owns ledger objects) {allocator : Allocator ω} {object : ω} {address : Address}
    (hnew : allocate allocator ledger object = (address, ledger')) :
    Owns ledger' ((address, object) ::ₘ objects) := by
  cases hnew
  show (((_, object) :: ledger.live : List (Address × ω)) : Multiset (Address × ω)) = _
  rw [← Multiset.cons_coe, h]

theorem Owns.fetch {ledger : Ledger ω} {objects : Multiset (Address × ω)}
    (h : Owns ledger objects) {address : Address} {object : ω} (hmem : (address, object) ∈ objects) :
    fetch ledger address = .ok object := by
  rw [← h, Multiset.mem_coe] at hmem
  obtain ⟨front, back, hsplit⟩ := List.append_of_mem hmem
  have hlookup : ledger.live.lookup address = some object := by
    refine List.lookup_eq_some_iff.mpr ⟨front, back, hsplit, fun entry hentry => ?_⟩
    have hnodup := ledger.nodup
    rw [hsplit, List.map_append, List.map_cons, List.nodup_middle, List.nodup_cons] at hnodup
    have hkey : entry.1 ∈ front.map Prod.fst := List.mem_map_of_mem hentry
    rw [bne_iff_ne]
    intro heq
    exact hnodup.1 (List.mem_append_left _ (heq ▸ hkey))
  simp only [Ownership.fetch, hlookup]

/-- An owned address occurs once. -/
theorem Owns.fst_ne {ledger : Ledger ω} {address : Address} {object : ω}
    {rest : Multiset (Address × ω)} (h : Owns ledger ((address, object) ::ₘ rest))
    {entry : Address × ω} (hentry : entry ∈ rest) : entry.1 ≠ address := by
  have hnodup : (Multiset.map Prod.fst ((address, object) ::ₘ rest)).Nodup := by
    rw [← h, Multiset.map_coe, Multiset.coe_nodup]
    exact ledger.nodup
  rw [Multiset.map_cons, Multiset.nodup_cons] at hnodup
  have hkey : entry.1 ∈ Multiset.map Prod.fst rest := Multiset.mem_map_of_mem Prod.fst hentry
  intro heq
  exact hnodup.1 (heq ▸ hkey)

theorem Owns.overwrite {ledger : Ledger ω} {address : Address} {old : ω}
    {rest : Multiset (Address × ω)} (h : Owns ledger ((address, old) ::ₘ rest)) (object : ω) :
    ∃ ledger', overwrite ledger address object = .ok ledger' ∧
      Owns ledger' ((address, object) ::ₘ rest) := by
  refine ⟨_, by rw [Ownership.overwrite, h.fetch (Multiset.mem_cons_self _ _), ok_bind, pure_eq_ok], ?_⟩
  have hsame : Multiset.map (renewed address object) rest = rest := by
    refine (Multiset.map_congr rfl fun entry hentry => ?_).trans (Multiset.map_id rest)
    rw [renewed, if_neg (h.fst_ne hentry)]
    rfl
  show ((ledger.live.map (renewed address object) : List (Address × ω)) : Multiset (Address × ω)) = _
  rw [← Multiset.map_coe, h, Multiset.map_cons, hsame, renewed, if_pos rfl]

theorem Owns.free {ledger : Ledger ω} {address : Address} {object : ω}
    {rest : Multiset (Address × ω)} (h : Owns ledger ((address, object) ::ₘ rest)) :
    ∃ ledger', free ledger address = .ok ledger' ∧ Owns ledger' rest := by
  refine ⟨_, by rw [Ownership.free, h.fetch (Multiset.mem_cons_self _ _), ok_bind, pure_eq_ok], ?_⟩
  show ((ledger.live.filter _ : List (Address × ω)) : Multiset (Address × ω)) = _
  rw [← Multiset.filter_coe, h, Multiset.filter_cons_of_neg, Multiset.filter_eq_self]
  · intro entry hentry
    exact h.fst_ne hentry
  · exact not_not.mpr rfl

theorem cons_rotate {α : Type} (a b c : α) (rest : Multiset α) :
    a ::ₘ b ::ₘ c ::ₘ rest = c ::ₘ b ::ₘ a ::ₘ rest := by
  rw [Multiset.cons_swap b c, Multiset.cons_swap a c, Multiset.cons_swap a b]

/-! ### Computations with and without memory -/

/-- The outcome is the fault that `value` is, or a result that belongs to its value. -/
structure Agrees {α β : Type} (value : Exec β) (belongs : β → α → Prop) (outcome : Exec α) :
    Prop where
  returns : ∀ result, value = .ok result → ∃ result', outcome = .ok result' ∧ belongs result result'
  faults : ∀ fault, value = .error fault → outcome = .error fault

section Agrees

variable {α β : Type} {value : Exec β} {belongs : β → α → Prop} {outcome : Exec α}

theorem agrees_ok {result : β} (result' : α) (hvalue : value = .ok result)
    (houtcome : outcome = .ok result') (hbelongs : belongs result result') :
    Agrees value belongs outcome := by
  subst hvalue houtcome
  constructor
  · intro other hother
    cases hother
    exact ⟨result', rfl, hbelongs⟩
  · intro fault hfault
    cases hfault

theorem agrees_error {fault : Fault} (hvalue : value = .error fault)
    (houtcome : outcome = .error fault) : Agrees value belongs outcome := by
  subst hvalue houtcome
  constructor
  · intro result hresult
    cases hresult
  · intro other hother
    cases hother
    rfl

theorem Agrees.imp {belongs' : β → α → Prop} (h : Agrees value belongs outcome)
    (himp : ∀ result result', value = .ok result → belongs result result' → belongs' result result') :
    Agrees value belongs' outcome := by
  refine ⟨fun result hvalue => ?_, h.faults⟩
  obtain ⟨result', houtcome, hbelongs⟩ := h.returns result hvalue
  exact ⟨result', houtcome, himp result result' hvalue hbelongs⟩

theorem Agrees.bind {γ δ : Type} (h : Agrees value belongs outcome) {next : β → Exec δ}
    {next' : α → Exec γ} {belongs' : δ → γ → Prop}
    (hnext : ∀ result result', value = .ok result → belongs result result' →
      Agrees (next result) belongs' (next' result')) :
    Agrees (value >>= next) belongs' (outcome >>= next') := by
  rcases hvalue : value with fault | result
  · exact agrees_error rfl (by rw [h.faults fault hvalue]; rfl)
  · obtain ⟨result', houtcome, hbelongs⟩ := h.returns result hvalue
    rw [houtcome]
    exact hnext result result' hvalue hbelongs

end Agrees

/-- **Lockstep rule.**  If every call on related states agrees, then every run does. -/
theorem run_agrees {σ τ ι ο : Type} (step : Step σ ι ο) (step' : Step τ ι ο) (R : σ → τ → Prop)
    (hstep : ∀ state state' call, R state state' →
      Agrees (step state call) (fun result result' => result'.1 = result.1 ∧ R result.2 result'.2)
        (step' state' call)) :
    ∀ (calls : List ι) (state : σ) (state' : τ), R state state' →
      Agrees (run step state calls)
        (fun result result' => result'.1 = result.1 ∧ R result.2 result'.2)
        (run step' state' calls) := by
  intro calls
  induction calls with
  | nil =>
    intro state state' hR
    exact agrees_ok ([], state') rfl rfl ⟨rfl, hR⟩
  | cons call calls ih =>
    intro state state' hR
    refine (hstep state state' call hR).bind ?_
    rintro ⟨output, next⟩ ⟨output', next'⟩ - ⟨rfl, hnext⟩
    refine (ih next next' hnext).bind ?_
    rintro ⟨outputs, final⟩ ⟨outputs', final'⟩ - ⟨rfl, hfinal⟩
    exact agrees_ok (output' :: outputs', final') rfl rfl ⟨rfl, hfinal⟩

end Cdht.Ownership
