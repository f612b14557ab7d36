/-
  Cdht/ChainWalk.lean
  ===================
  **Walks along a chain of cells.**

  The loops with which C programs search a linked list, unlink a cell of it and free all
  of it, over the heaps of `LinkedCells.lean`.  A loop on a heap need not end, so a walk
  gets a number of rounds and answers `none` if it has not ended by then; on a chain,
  as many rounds as there are cells are enough.  `release` is `free`: giving back a cell
  that is not there is a fault, so that a walk which returns has freed nothing twice.
-/
import Cdht.LinkedCells

namespace Cdht.ChainWalk

open Cdht.Memory Cdht.LinkedCells

variable {α : Type}

/-! ### The walks -/

def release (heap : Heap α) (address : Address) : Exec (Heap α) := do
  let _ ← loadCell heap address
  return freeCell heap address

section Search

variable (isMatch : α → Bool) (heap : Heap α)

/-- The first cell with matching data, from `current` on. -/
def seek : (rounds : Nat) → (current : Option Address) → Exec (Option (Option Address))
  | _, none => .ok (some none)
  | 0, some _ => .ok none
  | rounds + 1, some current => do
      let cell ← loadCell heap current
      if isMatch cell.data then return some (some current) else seek rounds cell.next

/-- Unlinks and frees the first cell with matching data, where `prev` is the cell before
    `current`: the address of that cell, the heap and the head of the chain. -/
def unlink (head : Option Address) : (rounds : Nat) → (prev current : Option Address) →
    Exec (Option (Option Address × Heap α × Option Address))
  | _, _, none => .ok (some (none, heap, head))
  | 0, _, some _ => .ok none
  | rounds + 1, prev, some current => do
      let cell ← loadCell heap current
      if isMatch cell.data then
        match prev with
        | some prev =>
            let heap ← storeNext heap prev cell.next
            let heap ← release heap current
            return some (some current, heap, head)
        | none =>
            let heap ← release heap current
            return some (some current, heap, cell.next)
      else unlink head rounds (some current) cell.next

end Search

/-- Frees every cell from `current` on. -/
def releaseAll : (rounds : Nat) → Heap α → (current : Option Address) → Exec (Option (Heap α))
  | _, heap, none => .ok (some heap)
  | 0, _, some _ => .ok none
  | rounds + 1, heap, some current => do
      let cell ← loadCell heap current
      let heap ← release heap current
      releaseAll rounds heap cell.next

/-! ### Chains that are all of the heap -/

/-- No cell of the heap is outside the list. -/
def Exact (heap : Heap α) (cells : List (Address × α)) : Prop :=
  ∀ address, heap address ≠ none → address ∈ addresses cells

theorem release_eq {heap : Heap α} {address : Address} {cell : Cell α}
    (h : heap address = some cell) : release heap address = .ok (freeCell heap address) := by
  simp only [release, loadCell_eq_ok h, ok_bind, pure_eq_ok]

theorem Exact.push {heap : Heap α} {cells : List (Address × α)} (h : Exact heap cells)
    (fresh : Address) (data : α) (next : Option Address) :
    Exact (placeCell heap fresh ⟨data, next⟩) ((fresh, data) :: cells) := by
  intro address hlive
  by_cases heq : address = fresh
  · subst heq
    exact List.mem_cons_self
  · rw [placeCell_of_ne heq] at hlive
    exact List.mem_cons_of_mem _ (h address hlive)

/-! ### Searching -/

/-- The address of the first cell with matching data. -/
def firstMatch (isMatch : α → Bool) (cells : List (Address × α)) : Option Address :=
  (cells.find? fun cell => isMatch cell.2).map Prod.fst

theorem firstMatch_cons_of_pos {isMatch : α → Bool} {data : α} (h : isMatch data = true)
    (address : Address) (cells : List (Address × α)) :
    firstMatch isMatch ((address, data) :: cells) = some address := by
  rw [firstMatch, List.find?_cons_of_pos (by exact h)]
  rfl

theorem firstMatch_cons_of_neg {isMatch : α → Bool} {data : α} (h : ¬ isMatch data = true)
    (address : Address) (cells : List (Address × α)) :
    firstMatch isMatch ((address, data) :: cells) = firstMatch isMatch cells := by
  rw [firstMatch, List.find?_cons_of_neg (by exact h)]
  rfl

theorem firstMatch_eq_none_iff {isMatch : α → Bool} {cells : List (Address × α)} :
    firstMatch isMatch cells = none ↔ ∀ cell ∈ cells, ¬ isMatch cell.2 = true := by
  rw [firstMatch, Option.map_eq_none_iff, List.find?_eq_none]

theorem firstMatch_append {isMatch : α → Bool} {front : List (Address × α)}
    (h : ∀ cell ∈ front, ¬ isMatch cell.2 = true) (back : List (Address × α)) :
    firstMatch isMatch (front ++ back) = firstMatch isMatch back := by
  induction front with
  | nil => rfl
  | cons cell front ih =>
    rw [List.cons_append, firstMatch_cons_of_neg (h cell List.mem_cons_self)]
    exact ih fun other hother => h other (List.mem_cons_of_mem cell hother)

theorem seek_eq {isMatch : α → Bool} {heap : Heap α} {cells : List (Address × α)} :
    ∀ {start : Option Address} {rounds : Nat}, Chain heap start cells → cells.length ≤ rounds →
      seek isMatch heap rounds start = .ok (some (firstMatch isMatch cells)) := by
  induction cells with
  | nil =>
    rintro start rounds rfl _
    rw [seek]
    rfl
  | cons cell cells ih =>
    obtain ⟨address, data⟩ := cell
    rintro start rounds ⟨rfl, next, hcell, hrest⟩ hrounds
    obtain ⟨rounds, rfl⟩ := Nat.exists_eq_add_of_le' (Nat.lt_of_lt_of_le (Nat.succ_pos _) hrounds)
    simp only [seek, loadCell_eq_ok hcell, ok_bind, pure_eq_ok]
    by_cases hmatch : isMatch data = true
    · rw [if_pos hmatch, firstMatch_cons_of_pos hmatch]
    · rw [if_neg hmatch, ih hrest (Nat.le_of_succ_le_succ hrounds), firstMatch_cons_of_neg hmatch]

/-! ### Unlinking -/

section Unlink

variable {isMatch : α → Bool} {heap : Heap α} {head : Option Address}

/-- The walk passes over cells without matching data. -/
theorem unlink_pass {front back : List (Address × α)}
    (hfront : ∀ cell ∈ front, ¬ isMatch cell.2 = true) :
    ∀ {start prev : Option Address} {rounds : Nat}, Chain heap start (front ++ back) →
      ∃ next, Chain heap next back ∧
        unlink isMatch heap head (rounds + front.length) prev start =
          unlink isMatch heap head rounds ((addresses front).getLast?.or prev) next := by
  induction front with
  | nil =>
    intro start prev rounds h
    exact ⟨start, h, rfl⟩
  | cons cell front ih =>
    obtain ⟨address, data⟩ := cell
    rintro start prev rounds ⟨rfl, next, hcell, hrest⟩
    have hmatch := hfront (address, data) List.mem_cons_self
    obtain ⟨next', hback, hwalk⟩ :=
      @ih (fun other hother => hfront other (List.mem_cons_of_mem _ hother)) next (some address)
        rounds hrest
    refine ⟨next', hback, ?_⟩
    have hlast : (addresses ((address, data) :: front)).getLast?.or prev =
        (addresses front).getLast?.or (some address) := by
      rw [addresses, List.map_cons, List.getLast?_cons]
      rcases hfront' : (List.map Prod.fst front).getLast? with _ | last
      · simp [addresses, hfront']
      · simp [addresses, hfront']
    rw [List.length_cons, ← Nat.add_assoc, unlink, loadCell_eq_ok hcell, ok_bind, if_neg hmatch,
      hwalk, hlast]

/-- The data of a heap after a cell is gone. -/
def Loses (heap heap' : Heap α) (gone : Option Address) : Prop :=
  ∀ address, (heap' address).map Cell.data =
    if gone = some address then none else (heap address).map Cell.data

theorem unlink_none {cells : List (Address × α)} {rounds : Nat} (h : Chain heap head cells)
    (hrounds : cells.length ≤ rounds) (hnone : ∀ cell ∈ cells, ¬ isMatch cell.2 = true) :
    unlink isMatch heap head rounds none head = .ok (some (none, heap, head)) := by
  obtain ⟨rounds, rfl⟩ := Nat.exists_eq_add_of_le' hrounds
  rw [← List.append_nil cells] at h
  obtain ⟨next, hend, hwalk⟩ := @unlink_pass α isMatch heap head cells [] hnone head none rounds h
  obtain rfl : next = none := hend
  rw [hwalk, unlink]

theorem loses_freeCell (heap : Heap α) (address : Address) :
    Loses heap (freeCell heap address) (some address) := by
  intro other
  by_cases heq : other = address
  · subst heq
    rw [freeCell_self, if_pos rfl]
    rfl
  · rw [freeCell_of_ne heq, if_neg fun h => heq (Option.some.inj h).symm]

/-- Another link of a cell does not change its data. -/
theorem Loses.relink {heap heap' : Heap α} {gone : Option Address} {address : Address} {data : α}
    {next next' : Option Address} (hcell : heap address = some ⟨data, next⟩)
    (h : Loses (placeCell heap address ⟨data, next'⟩) heap' gone) : Loses heap heap' gone := by
  intro other
  rw [h other]
  by_cases heq : other = address
  · subst heq
    rw [placeCell_self, hcell]
    rfl
  · rw [placeCell_of_ne heq]

/-- **Unlinking** takes the first matching cell out of the chain, from the head or from
    behind the cell before it, and frees it. -/
theorem unlink_some {front back : List (Address × α)} {address : Address} {data : α} {rounds : Nat}
    (h : Chain heap head (front ++ (address, data) :: back))
    (hrounds : (front ++ (address, data) :: back).length ≤ rounds)
    (hfront : ∀ cell ∈ front, ¬ isMatch cell.2 = true) (hmatch : isMatch data = true) :
    ∃ heap' head', unlink isMatch heap head rounds none head =
        .ok (some (some address, heap', head')) ∧
      Chain heap' head' (front ++ back) ∧ Loses heap heap' (some address) := by
  rw [List.length_append, List.length_cons] at hrounds
  obtain ⟨rounds, rfl⟩ : ∃ rounds', rounds = rounds' + 1 + front.length :=
    ⟨rounds - 1 - front.length, by omega⟩
  obtain ⟨start, hrest, hwalk⟩ :=
    @unlink_pass α isMatch heap head front _ hfront head none (rounds + 1) h
  obtain ⟨rfl, next, hcell, hback⟩ := hrest
  have hnot : address ∉ addresses back := by
    have hnodup : (address :: addresses back).Nodup :=
      Chain.nodup (show Chain heap (some address) ((address, data) :: back) from
        ⟨rfl, next, hcell, hback⟩)
    exact (List.nodup_cons.mp hnodup).1
  rw [hwalk]
  rcases List.eq_nil_or_concat' front with rfl | ⟨front, ⟨prev, value⟩, rfl⟩
  · -- table->head = current->next
    refine ⟨freeCell heap address, next, ?_, hback.free hnot, loses_freeCell heap address⟩
    simp only [addresses, List.map_nil, List.getLast?_nil, Option.none_or, unlink,
      loadCell_eq_ok hcell, ok_bind, if_pos hmatch, release_eq hcell, pure_eq_ok]
  · -- prev->next = current->next
    rw [List.append_assoc, List.singleton_append] at h
    obtain ⟨link, hprev, -⟩ := h.split
    have hne : address ≠ prev := by
      have hnotFront := Chain.not_mem_front (show Chain heap head
        ((front ++ [(prev, value)]) ++ (address, data) :: back) by
          rwa [List.append_assoc, List.singleton_append])
      rintro rfl
      apply hnotFront
      simp [addresses]
    have hprevBack : prev ∉ addresses back := by
      have hnodup := h.nodup
      simp only [addresses, List.map_append, List.map_cons] at hnodup
      have htail := (List.nodup_append.mp hnodup).2.1
      exact fun hmem => (List.nodup_cons.mp htail).1 (List.mem_cons_of_mem _ hmem)
    have hlive : placeCell heap prev ⟨value, next⟩ address = some ⟨data, next⟩ := by
      rw [placeCell_of_ne hne, hcell]
    have hlast : (addresses (front ++ [(prev, value)])).getLast?.or none = some prev := by
      simp [addresses]
    refine ⟨freeCell (placeCell heap prev ⟨value, next⟩) address, head, ?_, ?_, ?_⟩
    · rw [hlast]
      simp only [unlink, loadCell_eq_ok hcell, ok_bind, if_pos hmatch, storeNext_eq_ok hprev,
        release_eq hlive, pure_eq_ok]
    · rw [List.append_assoc, List.singleton_append]
      apply h.redirect
      · intro other hother
        have hotherPrev : other ≠ prev := fun heq => h.not_mem_front (heq ▸ hother)
        have hotherGone : other ≠ address := by
          rintro rfl
          have hnodup := h.nodup
          simp only [addresses, List.map_append, List.map_cons] at hnodup
          exact (List.nodup_append.mp hnodup).2.2 other hother other (by simp) rfl
        rw [freeCell_of_ne hotherGone, placeCell_of_ne hotherPrev]
      · rw [freeCell_of_ne (Ne.symm hne), placeCell_self]
      · exact (hback.place hprevBack _).free hnot
    · exact Loses.relink hprev (loses_freeCell _ address)

theorem Loses.exact {heap' : Heap α} {front back : List (Address × α)} {address : Address} {data : α}
    (h : Loses heap heap' (some address)) (hexact : Exact heap (front ++ (address, data) :: back)) :
    Exact heap' (front ++ back) := by
  intro other hlive
  have hother := h other
  obtain ⟨cell, hcell⟩ := Option.ne_none_iff_exists'.mp hlive
  rw [hcell] at hother
  by_cases hgone : some address = some other
  · rw [if_pos hgone] at hother
    cases hother
  · rw [if_neg hgone] at hother
    have hbefore : heap other ≠ none := by
      intro hnone
      rw [hnone] at hother
      cases hother
    have hmem := hexact other hbefore
    have hne : other ≠ address := fun heq => hgone (congrArg some heq.symm)
    simp only [addresses, List.map_append, List.map_cons, List.mem_append, List.mem_cons] at hmem ⊢
    exact hmem.imp_right fun hback => hback.resolve_left hne

/-- What becomes of a chain that is all of the heap. -/
theorem unlink_eq {cells : List (Address × α)} {rounds : Nat} (h : Chain heap head cells)
    (hexact : Exact heap cells) (hrounds : cells.length ≤ rounds) :
    ∃ heap' head', unlink isMatch heap head rounds none head =
        .ok (some (firstMatch isMatch cells, heap', head')) ∧
      Chain heap' head' (cells.eraseP fun cell => isMatch cell.2) ∧
      Exact heap' (cells.eraseP fun cell => isMatch cell.2) ∧
      Loses heap heap' (firstMatch isMatch cells) := by
  by_cases hany : ∃ cell ∈ cells, isMatch cell.2 = true
  · obtain ⟨found, hmem, hfound⟩ := hany
    obtain ⟨⟨address, data⟩, front, back, hfront, hmatch, hsplit, herase⟩ :=
      @List.exists_of_eraseP _ (fun cell => isMatch cell.2) cells found hmem hfound
    rw [herase]
    subst hsplit
    obtain ⟨heap', head', hrun, hchain, hloses⟩ :=
      @unlink_some α isMatch heap head front back address data rounds h hrounds hfront hmatch
    have hfirst : firstMatch isMatch (front ++ (address, data) :: back) = some address := by
      rw [firstMatch_append hfront, firstMatch_cons_of_pos hmatch]
    rw [hfirst]
    exact ⟨heap', head', hrun, hchain, hloses.exact hexact, hloses⟩
  · have hnone : ∀ cell ∈ cells, ¬ isMatch cell.2 = true := fun cell hcell hmatch =>
      hany ⟨cell, hcell, hmatch⟩
    have hfirst : firstMatch isMatch cells = none := firstMatch_eq_none_iff.mpr hnone
    have herase : cells.eraseP (fun cell => isMatch cell.2) = cells := List.eraseP_of_forall_not hnone
    rw [hfirst, herase]
    refine ⟨heap, head, unlink_none h hrounds hnone, h, hexact, fun address => ?_⟩
    rw [if_neg (by simp)]

end Unlink

/-! ### Freeing -/

/-- **Freeing a chain** frees its cells and nothing else. -/
theorem releaseAll_eq {cells : List (Address × α)} :
    ∀ {heap : Heap α} {start : Option Address} {rounds : Nat}, Chain heap start cells →
      cells.length ≤ rounds → ∃ heap', releaseAll rounds heap start = .ok (some heap') ∧
        (∀ address ∈ addresses cells, heap' address = none) ∧
        ∀ address ∉ addresses cells, heap' address = heap address := by
  induction cells with
  | nil =>
    rintro heap start rounds rfl _
    refine ⟨heap, by rw [releaseAll], ?_, fun _ _ => rfl⟩
    intro address hmem
    cases hmem
  | cons cell cells ih =>
    obtain ⟨current, data⟩ := cell
    intro heap start rounds h hrounds
    have hnot : current ∉ addresses cells := (List.nodup_cons.mp h.nodup).1
    obtain ⟨rfl, next, hcell, hrest⟩ := h
    obtain ⟨rounds, rfl⟩ := Nat.exists_eq_add_of_le' (Nat.lt_of_lt_of_le (Nat.succ_pos _) hrounds)
    obtain ⟨heap', hrun, hfreed, hkept⟩ :=
      ih (hrest.free hnot) (Nat.le_of_succ_le_succ hrounds)
    refine ⟨heap', ?_, ?_, ?_⟩
    · simp only [releaseAll, loadCell_eq_ok hcell, release_eq hcell, ok_bind]
      exact hrun
    · intro address hmem
      rcases List.mem_cons.mp hmem with rfl | hrest
      · rw [hkept address hnot, freeCell_self]
      · exact hfreed address hrest
    · intro address hmem
      have hmem : address ∉ current :: addresses cells := hmem
      rw [List.mem_cons, not_or] at hmem
      rw [hkept address hmem.2, freeCell_of_ne hmem.1]

/-- If the chain was all of the heap, the heap is empty. -/
theorem releaseAll_exact {heap : Heap α} {start : Option Address} {cells : List (Address × α)}
    {rounds : Nat} (h : Chain heap start cells) (hexact : Exact heap cells)
    (hrounds : cells.length ≤ rounds) :
    releaseAll rounds heap start = .ok (some fun _ => none) := by
  obtain ⟨heap', hrun, hfreed, hkept⟩ := releaseAll_eq h hrounds
  have hempty : heap' = fun _ => none := by
    funext address
    by_cases hmem : address ∈ addresses cells
    · exact hfreed address hmem
    · rw [hkept address hmem]
      by_contra hlive
      exact hmem (hexact address hlive)
  rw [hrun, hempty]

end Cdht.ChainWalk
