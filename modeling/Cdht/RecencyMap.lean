/-
  Cdht/RecencyMap.lean
  ====================
  **Finite maps that remember the order of insertion.**

  Over arbitrary keys and tags: a finite set of live keys, a tag for each, and the
  time at which each was inserted.  Times of live keys are distinct and lie before
  the clock, which is part of the type, so among the live keys that carry a tag
  there is exactly one newest (`newest_eq_some_iff`).
-/
import Mathlib.Data.Finset.Max
import Mathlib.Data.Set.Function

namespace Cdht.RecencyMap

/-- A finite map from keys to tags with insertion times. -/
structure RMap (κ η : Type) where
  live : Finset κ
  tag : κ → η
  stamp : κ → ℕ
  clock : ℕ
  stamp_lt : ∀ key ∈ live, stamp key < clock
  stamp_inj : Set.InjOn stamp live

namespace RMap

variable {κ η : Type}

def empty (tag : κ → η) : RMap κ η where
  live := ∅
  tag := tag
  stamp := fun _ => 0
  clock := 0
  stamp_lt := by simp
  stamp_inj := by simp

section Updates

variable [DecidableEq κ]

def insert (map : RMap κ η) (key : κ) (tag : η) (habsent : key ∉ map.live) : RMap κ η where
  live := Insert.insert key map.live
  tag := Function.update map.tag key tag
  stamp := Function.update map.stamp key map.clock
  clock := map.clock + 1
  stamp_lt := by
    intro other hother
    rcases Finset.mem_insert.mp hother with rfl | hlive
    · rw [Function.update_self]
      exact Nat.lt_succ_self _
    · rw [Function.update_of_ne (ne_of_mem_of_not_mem hlive habsent)]
      exact Nat.lt_succ_of_lt (map.stamp_lt other hlive)
  stamp_inj := by
    have hbefore : ∀ other ∈ map.live, Function.update map.stamp key map.clock other < map.clock := by
      intro other hlive
      rw [Function.update_of_ne (ne_of_mem_of_not_mem hlive habsent)]
      exact map.stamp_lt other hlive
    intro left hleft right hright hstamp
    rcases Finset.mem_insert.mp hleft with rfl | hleft'
    · rcases Finset.mem_insert.mp hright with rfl | hright'
      · rfl
      · have hlt := hbefore right hright'
        rw [← hstamp, Function.update_self] at hlt
        exact absurd hlt (Nat.lt_irrefl _)
    · rcases Finset.mem_insert.mp hright with rfl | hright'
      · have hlt := hbefore left hleft'
        rw [hstamp, Function.update_self] at hlt
        exact absurd hlt (Nat.lt_irrefl _)
      · rw [Function.update_of_ne (ne_of_mem_of_not_mem hleft' habsent),
          Function.update_of_ne (ne_of_mem_of_not_mem hright' habsent)] at hstamp
        exact map.stamp_inj hleft' hright' hstamp

def erase (map : RMap κ η) (key : κ) : RMap κ η :=
  { map with
    live := map.live.erase key
    stamp_lt := fun other hother => map.stamp_lt other (Finset.mem_of_mem_erase hother)
    stamp_inj := map.stamp_inj.mono (Finset.coe_subset.mpr (Finset.erase_subset key map.live)) }

end Updates

section Carriers

variable [DecidableEq η]

def carriers (map : RMap κ η) (tag : η) : Finset κ := map.live.filter fun key => map.tag key = tag

open Classical in
/-- The most recently inserted live key that carries a tag. -/
noncomputable def newest (map : RMap κ η) (tag : η) : Option κ :=
  if hsome : (map.carriers tag).Nonempty then
    some (Classical.choose ((map.carriers tag).exists_max_image map.stamp hsome))
  else none

theorem mem_carriers {map : RMap κ η} {tag : η} {key : κ} :
    key ∈ map.carriers tag ↔ key ∈ map.live ∧ map.tag key = tag := Finset.mem_filter

theorem newest_eq_none {map : RMap κ η} {tag : η} (h : ∀ key ∈ map.live, map.tag key ≠ tag) :
    map.newest tag = none := by
  refine dif_neg ?_
  rintro ⟨key, hkey⟩
  exact h key (mem_carriers.mp hkey).1 (mem_carriers.mp hkey).2

/-- **The newest carrier** is the one that no other carrier was inserted after. -/
theorem newest_eq_some_iff {map : RMap κ η} {tag : η} {key : κ} :
    map.newest tag = some key ↔
      key ∈ map.carriers tag ∧ ∀ other ∈ map.carriers tag, map.stamp other ≤ map.stamp key := by
  have hchosen : ∀ hsome : (map.carriers tag).Nonempty,
      map.newest tag =
        some (Classical.choose ((map.carriers tag).exists_max_image map.stamp hsome)) :=
    fun hsome => dif_pos hsome
  constructor
  · intro hnewest
    by_cases hsome : (map.carriers tag).Nonempty
    · rw [hchosen hsome, Option.some.injEq] at hnewest
      exact hnewest ▸ Classical.choose_spec ((map.carriers tag).exists_max_image map.stamp hsome)
    · rw [newest, dif_neg hsome] at hnewest
      cases hnewest
  · rintro ⟨hkey, hmax⟩
    have hsome : (map.carriers tag).Nonempty := ⟨key, hkey⟩
    obtain ⟨hmem, hmax'⟩ :=
      Classical.choose_spec ((map.carriers tag).exists_max_image map.stamp hsome)
    rw [hchosen hsome, Option.some.injEq]
    -- two maxima have one stamp, and stamps of live keys are distinct
    exact map.stamp_inj (mem_carriers.mp hmem).1 (mem_carriers.mp hkey).1
      (Nat.le_antisymm (hmax _ hmem) (hmax' key hkey))

end Carriers

end RMap

end Cdht.RecencyMap
