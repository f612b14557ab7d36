/-
  Cdht/FirstWriteMap.lean
  =======================
  **Maps in which the first write to a key wins.**

  Over arbitrary key and value types: a map is a partial function, a write to a
  key that has a value changes nothing, and after any sequence of writes every
  key holds the value of the earliest write to it (`foldl_write`).
-/
import Mathlib.Data.List.Basic

namespace Cdht.FirstWriteMap

variable {κ ν : Type} [DecidableEq κ]

abbrev FMap (κ ν : Type) := κ → Option ν

def empty : FMap κ ν := fun _ => none

def write (map : FMap κ ν) (key : κ) (value : ν) : FMap κ ν := fun other =>
  if other = key then some ((map key).getD value) else map other

def earliest (writes : List (κ × ν)) (key : κ) : Option ν :=
  (writes.find? (fun write => write.1 = key)).map Prod.snd

theorem write_apply (map : FMap κ ν) (key other : κ) (value : ν) :
    write map key value other = (map other).or (if other = key then some value else none) := by
  by_cases hkey : other = key
  · subst hkey
    rcases hmap : map other with _ | old
    · simp [write, hmap]
    · simp [write, hmap]
  · simp [write, hkey]

theorem write_of_isSome {map : FMap κ ν} {key : κ} (h : (map key).isSome) (value : ν) :
    write map key value = map := by
  funext other
  rw [write_apply]
  by_cases hkey : other = key
  · subst hkey
    obtain ⟨old, hold⟩ := Option.isSome_iff_exists.mp h
    rw [hold, Option.some_or]
  · rw [if_neg hkey, Option.or_none]

theorem earliest_cons (key : κ) (value : ν) (writes : List (κ × ν)) (other : κ) :
    earliest ((key, value) :: writes) other =
      (if other = key then some value else none).or (earliest writes other) := by
  by_cases hkey : other = key
  · simp [earliest, hkey]
  · have hkey' : ¬ key = other := fun h => hkey h.symm
    simp [earliest, hkey, hkey']

/-- **The first write wins.**  After any sequence of writes a key keeps the value
    it had, and otherwise holds the value of the earliest write to it. -/
theorem foldl_write (writes : List (κ × ν)) (map : FMap κ ν) (key : κ) :
    writes.foldl (fun map write => FirstWriteMap.write map write.1 write.2) map key =
      (map key).or (earliest writes key) := by
  induction writes generalizing map with
  | nil => simp [earliest]
  | cons first writes ih =>
    rw [List.foldl_cons, ih, write_apply, earliest_cons, Option.or_assoc]

theorem earliest_eq_none_iff {writes : List (κ × ν)} {key : κ} :
    earliest writes key = none ↔ ∀ write ∈ writes, write.1 ≠ key := by
  simp [earliest, List.find?_eq_none]

theorem earliest_append (writes later : List (κ × ν)) (key : κ) :
    earliest (writes ++ later) key = (earliest writes key).or (earliest later key) := by
  induction writes with
  | nil => simp [earliest]
  | cons first writes ih => rw [List.cons_append, earliest_cons, ih, earliest_cons, Option.or_assoc]

end Cdht.FirstWriteMap
