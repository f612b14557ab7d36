/-
  Cdht/LinkedCells.lean
  =====================
  **Chains of cells on a heap.**

  A cell holds some data and a pointer to the next cell, and a heap is a partial
  function from addresses to cells.  `Chain heap start cells` says that following
  `next` from `start` visits exactly the given cells and ends at NULL.  As a heap
  has one cell at an address, a pointer starts at most one chain (`chain_unique`),
  and a chain does not meet an address twice (`Chain.nodup`).

  The address that an allocation returns is an argument, so that a freed address may
  be handed out again; an allocator only promises that it is not in use.
-/
import Cdht.Memory
import Mathlib.Data.List.Nodup
import Mathlib.Logic.Function.Basic

namespace Cdht.LinkedCells

open Cdht.Memory

variable {α : Type}

abbrev Address := Nat

structure Cell (α : Type) where
  data : α
  next : Option Address

abbrev Heap (α : Type) := Address → Option (Cell α)

def loadCell (heap : Heap α) (address : Address) : Exec (Cell α) :=
  match heap address with
  | some cell => .ok cell
  | none => .error (.outOfBounds address)

def placeCell (heap : Heap α) (address : Address) (cell : Cell α) : Heap α :=
  Function.update heap address (some cell)

def freeCell (heap : Heap α) (address : Address) : Heap α := Function.update heap address none

def storeNext (heap : Heap α) (address : Address) (next : Option Address) : Exec (Heap α) := do
  let cell ← loadCell heap address
  return placeCell heap address { cell with next := next }

theorem loadCell_eq_ok {heap : Heap α} {address : Address} {cell : Cell α}
    (h : heap address = some cell) : loadCell heap address = .ok cell := by
  simp only [loadCell, h]

theorem eq_some_of_loadCell {heap : Heap α} {address : Address} {cell : Cell α}
    (h : loadCell heap address = .ok cell) : heap address = some cell := by
  rcases hcell : heap address with _ | other
  · simp only [loadCell, hcell, reduceCtorEq] at h
  · simp only [loadCell, hcell] at h
    exact congrArg some (Except.ok.inj h)

theorem storeNext_eq_ok {heap : Heap α} {address : Address} {cell : Cell α}
    (h : heap address = some cell) (next : Option Address) :
    storeNext heap address next = .ok (placeCell heap address { cell with next := next }) := by
  simp only [storeNext, loadCell_eq_ok h, ok_bind, pure_eq_ok]

@[simp] theorem placeCell_self (heap : Heap α) (address : Address) (cell : Cell α) :
    placeCell heap address cell address = some cell := Function.update_self ..

@[simp] theorem placeCell_placeCell (heap : Heap α) (address : Address) (cell cell' : Cell α) :
    placeCell (placeCell heap address cell) address cell' = placeCell heap address cell' :=
  Function.update_idem ..

theorem placeCell_of_ne {address other : Address} (hne : other ≠ address) (heap : Heap α)
    (cell : Cell α) : placeCell heap address cell other = heap other :=
  Function.update_of_ne hne ..

@[simp] theorem freeCell_self (heap : Heap α) (address : Address) : freeCell heap address address = none :=
  Function.update_self ..

theorem freeCell_of_ne {address other : Address} (hne : other ≠ address) (heap : Heap α) :
    freeCell heap address other = heap other := Function.update_of_ne hne ..

/-! ### Chains -/

def Chain (heap : Heap α) : Option Address → List (Address × α) → Prop
  | start, [] => start = none
  | start, (address, data) :: rest =>
      start = some address ∧ ∃ next, heap address = some ⟨data, next⟩ ∧ Chain heap next rest

def addresses (cells : List (Address × α)) : List Address := cells.map Prod.fst

theorem Chain.eq_nil {heap : Heap α} {cells : List (Address × α)} (h : Chain heap none cells) :
    cells = [] := by
  cases cells with
  | nil => rfl
  | cons cell rest =>
    obtain ⟨hstart, -⟩ := h
    cases hstart

theorem Chain.eq_cons {heap : Heap α} {address : Address} {cells : List (Address × α)}
    (h : Chain heap (some address) cells) : ∃ data rest, cells = (address, data) :: rest := by
  cases cells with
  | nil => cases h
  | cons cell rest =>
    obtain ⟨other, data⟩ := cell
    obtain ⟨hstart, -⟩ := h
    obtain rfl := Option.some.inj hstart
    exact ⟨data, rest, rfl⟩

theorem chain_unique {heap : Heap α} {start : Option Address} {cells cells' : List (Address × α)}
    (h : Chain heap start cells) (h' : Chain heap start cells') : cells = cells' := by
  induction cells generalizing start cells' with
  | nil =>
    cases cells' with
    | nil => rfl
    | cons cell rest =>
      obtain ⟨hstart, -⟩ := h'
      cases h.symm.trans hstart
  | cons cell rest ih =>
    obtain ⟨address, data⟩ := cell
    obtain ⟨hstart, next, hcell, hrest⟩ := h
    cases cells' with
    | nil => cases hstart.symm.trans h'
    | cons cell' rest' =>
      obtain ⟨address', data'⟩ := cell'
      obtain ⟨hstart', next', hcell', hrest'⟩ := h'
      obtain rfl := Option.some.inj (hstart.symm.trans hstart')
      have hsame := Option.some.inj (hcell.symm.trans hcell')
      simp only [Cell.mk.injEq] at hsame
      obtain ⟨rfl, rfl⟩ := hsame
      simp only [ih hrest hrest']

/-- The rest of a chain behind one of its cells. -/
theorem Chain.split {heap : Heap α} {start : Option Address} {front back : List (Address × α)}
    {address : Address} {data : α} (h : Chain heap start (front ++ (address, data) :: back)) :
    ∃ next, heap address = some ⟨data, next⟩ ∧ Chain heap next back := by
  induction front generalizing start with
  | nil => exact h.2
  | cons cell front ih =>
    obtain ⟨-, next, -, hrest⟩ := h
    exact ih hrest

theorem Chain.nodup {heap : Heap α} {start : Option Address} {cells : List (Address × α)}
    (h : Chain heap start cells) : (addresses cells).Nodup := by
  induction cells generalizing start with
  | nil => exact List.nodup_nil
  | cons cell rest ih =>
    obtain ⟨address, data⟩ := cell
    have hchain := h
    obtain ⟨rfl, next, hcell, hrest⟩ := h
    refine List.nodup_cons.mpr ⟨?_, ih hrest⟩
    -- the chain from the second occurrence would be the chain from the first one
    intro hagain
    obtain ⟨⟨address', data'⟩, hmem, rfl⟩ := List.mem_map.mp hagain
    obtain ⟨front, back, rfl⟩ := List.append_of_mem hmem
    obtain ⟨next', hcell', hback⟩ := hrest.split
    have hsecond : Chain heap (some address') ((address', data') :: back) :=
      ⟨rfl, next', hcell', hback⟩
    have hlength := congrArg List.length (chain_unique hchain hsecond)
    simp only [List.length_cons, List.length_append] at hlength
    omega

theorem Chain.live {heap : Heap α} {start : Option Address} {cells : List (Address × α)}
    (h : Chain heap start cells) {address : Address} (hmem : address ∈ addresses cells) :
    heap address ≠ none := by
  obtain ⟨⟨address, data⟩, hcell, rfl⟩ := List.mem_map.mp hmem
  obtain ⟨front, back, rfl⟩ := List.append_of_mem hcell
  obtain ⟨next, hcell, -⟩ := h.split
  simp only [hcell, ne_eq, reduceCtorEq, not_false_iff]

theorem Chain.not_mem_of_unused {heap : Heap α} {start : Option Address}
    {cells : List (Address × α)} (h : Chain heap start cells) {address : Address}
    (hunused : heap address = none) : address ∉ addresses cells :=
  fun hmem => h.live hmem hunused

theorem Chain.congr {heap heap' : Heap α} {start : Option Address} {cells : List (Address × α)}
    (h : Chain heap start cells) (hsame : ∀ address ∈ addresses cells, heap' address = heap address) :
    Chain heap' start cells := by
  induction cells generalizing start with
  | nil => exact h
  | cons cell rest ih =>
    obtain ⟨address, data⟩ := cell
    obtain ⟨hstart, next, hcell, hrest⟩ := h
    refine ⟨hstart, next, ?_, ih hrest ?_⟩
    · exact (hsame address List.mem_cons_self).trans hcell
    · intro other hother
      exact hsame other (List.mem_cons_of_mem address hother)

theorem Chain.place {heap : Heap α} {start : Option Address} {cells : List (Address × α)}
    (h : Chain heap start cells) {address : Address} (hnot : address ∉ addresses cells)
    (cell : Cell α) : Chain (placeCell heap address cell) start cells := by
  apply h.congr
  intro other hother
  apply placeCell_of_ne
  rintro rfl
  exact hnot hother

theorem Chain.free {heap : Heap α} {start : Option Address} {cells : List (Address × α)}
    (h : Chain heap start cells) {address : Address} (hnot : address ∉ addresses cells) :
    Chain (freeCell heap address) start cells := by
  apply h.congr
  intro other hother
  apply freeCell_of_ne
  rintro rfl
  exact hnot hother

/-- **A new cell in front** of a chain. -/
theorem Chain.push {heap : Heap α} {start : Option Address} {cells : List (Address × α)}
    (h : Chain heap start cells) {fresh : Address} (hunused : heap fresh = none) (data : α) :
    Chain (placeCell heap fresh ⟨data, start⟩) (some fresh) ((fresh, data) :: cells) :=
  ⟨rfl, start, placeCell_self .., h.place (h.not_mem_of_unused hunused) _⟩

/-- The links up to a cell stay if only that cell and what comes behind it change. -/
theorem Chain.redirect {heap heap' : Heap α} {start : Option Address}
    {front back back' : List (Address × α)} {address : Address} {data : α} {next : Option Address}
    (h : Chain heap start (front ++ (address, data) :: back))
    (hfront : ∀ other ∈ addresses front, heap' other = heap other)
    (hcell : heap' address = some ⟨data, next⟩) (hback : Chain heap' next back') :
    Chain heap' start (front ++ (address, data) :: back') := by
  induction front generalizing start with
  | nil => exact ⟨h.1, next, hcell, hback⟩
  | cons cell front ih =>
    obtain ⟨other, value⟩ := cell
    obtain ⟨hstart, next', hother, hrest⟩ := h
    refine ⟨hstart, next', ?_, ih hrest ?_⟩
    · exact (hfront other List.mem_cons_self).trans hother
    · intro third hthird
      exact hfront third (List.mem_cons_of_mem other hthird)

theorem Chain.not_mem_front {heap : Heap α} {start : Option Address}
    {front back : List (Address × α)} {address : Address} {data : α}
    (h : Chain heap start (front ++ (address, data) :: back)) : address ∉ addresses front := by
  have hnodup := h.nodup
  rw [addresses, List.map_append, List.map_cons, List.nodup_middle, List.nodup_cons] at hnodup
  intro hmem
  exact hnodup.1 (List.mem_append_left _ hmem)

theorem last_mem_addresses {cells : List (Address × α)} (h : cells ≠ []) (first : Address) :
    (addresses cells).getLastD first ∈ addresses cells := by
  obtain ⟨cell, rest, rfl⟩ := List.exists_cons_of_ne_nil h
  have hlast : (addresses (cell :: rest)).getLastD first = (addresses rest).getLastD cell.1 :=
    List.getLastD_cons
  rw [hlast]
  exact List.getLastD_mem_cons

/-- The last cell of a chain is the first one exactly if there is no other. -/
theorem Chain.last_eq_first_iff {heap : Heap α} {first : Address} {data : α}
    {cells : List (Address × α)} (h : Chain heap (some first) ((first, data) :: cells)) :
    (addresses cells).getLastD first = first ↔ cells = [] := by
  constructor
  · intro hlast
    by_contra hcells
    have hnodup : (first :: addresses cells).Nodup := h.nodup
    apply (List.nodup_cons.mp hnodup).1
    have hmem := last_mem_addresses hcells first
    rwa [hlast] at hmem
  · rintro rfl
    rfl

/-- **Linking a new cell behind the last one** extends the chain by it. -/
theorem Chain.link {heap : Heap α} {start : Option Address} {front : List (Address × α)}
    {last fresh : Address} {data new : α} (h : Chain heap start (front ++ [(last, data)]))
    (hunused : heap fresh = none) :
    Chain (placeCell (placeCell heap fresh ⟨new, none⟩) last ⟨data, some fresh⟩) start
      (front ++ [(last, data), (fresh, new)]) := by
  have hnew := h.not_mem_of_unused hunused
  have hlast : fresh ≠ last := by
    rintro rfl
    apply hnew
    simp only [addresses, List.map_append, List.map_cons, List.map_nil, List.mem_append,
      List.mem_singleton, or_true]
  apply h.redirect
  · intro other hother
    have hother' : other ≠ last := fun heq => h.not_mem_front (heq ▸ hother)
    have hfresh : other ≠ fresh := by
      rintro rfl
      apply hnew
      simp only [addresses, List.map_append, List.mem_append]
      exact Or.inl hother
    simp only [placeCell_of_ne hother', placeCell_of_ne hfresh]
  · exact placeCell_self ..
  · refine ⟨rfl, none, ?_, rfl⟩
    simp only [placeCell_of_ne hlast, placeCell_self]

end Cdht.LinkedCells
