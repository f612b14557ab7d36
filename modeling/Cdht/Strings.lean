/-
  Cdht/Strings.lean
  =================
  **NUL-terminated strings and the `<string.h>` functions on them.**

  A buffer is the list of bytes from a pointer on; the string it denotes is its
  prefix before the first NUL (`cstr`).  A `CString` is such a prefix on its own,
  the value of a `const char *` argument: the end of its list stands for the
  terminator.  `strcmp`, `strncpy` and `memcmp` are written as the library loops
  and characterised by what callers rely on: `strcmp` is zero exactly on equal
  strings, `strchr` splits a string at the first occurrence of a character,
  `strncpy` writes a truncated and zero-padded copy, and doing that twice is doing
  it once.
-/
import Cdht.Memory
import Mathlib.Data.List.TakeWhile

namespace Cdht.Strings

open Cdht.Memory

/-! ### Strings in buffers -/

/-- The string that a buffer denotes: its bytes before the first NUL. -/
def cstr (buffer : Bytes) : Bytes := buffer.takeWhile (· ≠ 0)

@[simp] theorem cstr_nil : cstr [] = [] := rfl

theorem cstr_cons (byte : UInt8) (rest : Bytes) :
    cstr (byte :: rest) = if byte = 0 then [] else byte :: cstr rest := by
  by_cases hnul : byte = 0
  · simp [cstr, hnul]
  · simp [cstr, hnul]

theorem nul_not_mem_cstr (buffer : Bytes) : (0 : UInt8) ∉ cstr buffer := by
  intro hmem
  have hne := List.mem_takeWhile_imp hmem
  simp at hne

theorem cstr_eq_self {chars : Bytes} (h : (0 : UInt8) ∉ chars) : cstr chars = chars := by
  rw [cstr, List.takeWhile_eq_self_iff]
  intro char hchar
  have hne : char ≠ 0 := fun heq => h (heq ▸ hchar)
  simpa using hne

theorem cstr_append_nul {chars : Bytes} (h : (0 : UInt8) ∉ chars) (rest : Bytes) :
    cstr (chars ++ 0 :: rest) = chars := by
  have hall : ∀ char ∈ chars, (decide (char ≠ 0)) = true := by
    intro char hchar
    have hne : char ≠ 0 := fun heq => h (heq ▸ hchar)
    simpa using hne
  rw [cstr, List.takeWhile_append_of_pos hall, List.takeWhile_cons_of_neg (by simp),
    List.append_nil]

/-- The value of a `const char *` argument. -/
structure CString where
  chars : Bytes
  noNul : (0 : UInt8) ∉ chars
deriving DecidableEq

def CString.strlen (string : CString) : Nat := string.chars.length

def CString.ofBuffer (buffer : Bytes) : CString := ⟨cstr buffer, nul_not_mem_cstr buffer⟩

theorem CString.ext_iff_chars {left right : CString} : left = right ↔ left.chars = right.chars := by
  cases left
  cases right
  simp

/-! ### Comparing -/

theorem toNat_eq_zero_iff (byte : UInt8) : byte.toNat = 0 ↔ byte = 0 := by
  rw [← UInt8.toNat_inj]
  rfl

/-- `strcmp`, on two buffers whose ends stand for terminators. -/
def strcmp : Bytes → Bytes → Int
  | [], [] => 0
  | [], right :: _ => -(right.toNat : Int)
  | left :: _, [] => left.toNat
  | left :: lefts, right :: rights =>
      if left = right then
        if left = 0 then 0 else strcmp lefts rights
      else (left.toNat : Int) - right.toNat

/-- **`strcmp` is zero exactly on equal strings.** -/
theorem strcmp_eq_zero_iff (left right : Bytes) :
    strcmp left right = 0 ↔ cstr left = cstr right := by
  induction left generalizing right with
  | nil =>
    cases right with
    | nil => simp [strcmp]
    | cons byte rest =>
      rw [cstr_nil, cstr_cons, strcmp, Int.neg_eq_zero, Int.natCast_eq_zero, toNat_eq_zero_iff]
      by_cases hnul : byte = 0
      · simp [hnul]
      · simp [hnul]
  | cons byte rest ih =>
    cases right with
    | nil =>
      rw [cstr_nil, cstr_cons, strcmp, Int.natCast_eq_zero, toNat_eq_zero_iff]
      by_cases hnul : byte = 0
      · simp [hnul]
      · simp [hnul]
    | cons other others =>
      rw [cstr_cons, cstr_cons, strcmp]
      by_cases heq : byte = other
      · subst heq
        by_cases hnul : byte = 0
        · simp [hnul]
        · simp [hnul, ih others]
      · have hne : byte.toNat ≠ other.toNat := fun h => heq (UInt8.toNat_inj.mp h)
        rw [if_neg heq]
        constructor
        · intro h
          omega
        · intro h
          exfalso
          -- the first bytes differ, so at most one of the strings is empty
          by_cases hnul : byte = 0
          · have hother : other ≠ 0 := fun ho => heq (hnul.trans ho.symm)
            simp [hnul, hother] at h
          · by_cases hother : other = 0
            · simp [hnul, hother] at h
            · simp [hnul, hother, heq] at h

def memcmp : Bytes → Bytes → Int
  | left :: lefts, right :: rights =>
      if left = right then memcmp lefts rights else (left.toNat : Int) - right.toNat
  | _, _ => 0

/-- **`memcmp` is zero exactly on equal objects** of one size. -/
theorem memcmp_eq_zero_iff {left right : Bytes} (hsize : left.length = right.length) :
    memcmp left right = 0 ↔ left = right := by
  induction left generalizing right with
  | nil =>
    cases right with
    | nil => simp [memcmp]
    | cons byte rest => simp at hsize
  | cons byte rest ih =>
    cases right with
    | nil => simp at hsize
    | cons other others =>
      have hrest : rest.length = others.length := by simpa using hsize
      by_cases heq : byte = other
      · subst heq
        rw [memcmp, if_pos rfl, ih hrest, List.cons.injEq]
        simp
      · have hne : byte.toNat ≠ other.toNat := fun h => heq (UInt8.toNat_inj.mp h)
        rw [memcmp, if_neg heq]
        constructor
        · intro h
          omega
        · intro h
          exact absurd (List.cons.inj h).1 heq

/-! ### Searching -/

/-- The index of the character that `strchr` points to. -/
def strchr (string : Bytes) (char : UInt8) : Option Nat := string.findIdx? (· = char)

theorem strchr_eq_none {string : Bytes} {char : UInt8} (h : strchr string char = none) :
    char ∉ string := by
  intro hmem
  have hnot := List.findIdx?_eq_none_iff.mp h char hmem
  simp at hnot

/-- **`strchr` splits a string at the first occurrence.** -/
theorem strchr_eq_some {string : Bytes} {char : UInt8} {index : Nat}
    (h : strchr string char = some index) :
    char ∈ string ∧ string.take index = string.takeWhile (· ≠ char) ∧
      string.drop (index + 1) = (string.dropWhile (· ≠ char)).drop 1 := by
  induction string generalizing index with
  | nil => cases h
  | cons first rest ih =>
    unfold strchr at h
    rw [List.findIdx?_cons] at h
    by_cases hfirst : first = char
    · simp only [hfirst, decide_true, if_true, Option.some.injEq] at h
      subst h
      subst hfirst
      simp
    · simp only [hfirst, decide_false, Bool.false_eq_true, if_false, Option.map_eq_some_iff] at h
      obtain ⟨index, hindex, rfl⟩ := h
      obtain ⟨hmem, hbefore, hafter⟩ := ih hindex
      refine ⟨List.mem_cons_of_mem first hmem, ?_, ?_⟩
      · rw [List.take_succ_cons, hbefore, List.takeWhile_cons_of_pos (by simpa using hfirst)]
      · rw [List.drop_succ_cons, hafter, List.dropWhile_cons_of_pos (by simpa using hfirst)]

/-! ### Bounded copies -/

/-- The `n` bytes that `strncpy(dst, src, n)` writes. -/
def strncpy (src : Bytes) (n : Nat) : Bytes :=
  (cstr src).take n ++ List.replicate (n - (cstr src).length) 0

@[simp] theorem length_strncpy (src : Bytes) (n : Nat) : (strncpy src n).length = n := by
  rw [strncpy, List.length_append, List.length_take, List.length_replicate]
  omega

theorem cstr_strncpy_nul (src : Bytes) (n : Nat) :
    cstr (strncpy src n ++ [0]) = (cstr src).take n := by
  have hnul : (0 : UInt8) ∉ (cstr src).take n := fun hmem =>
    nul_not_mem_cstr src (List.mem_of_mem_take hmem)
  rw [strncpy, List.append_assoc, ← List.replicate_succ', List.replicate_succ]
  exact cstr_append_nul hnul _

theorem strncpy_congr {left right : Bytes} {n : Nat}
    (h : (cstr left).take n = (cstr right).take n) : strncpy left n = strncpy right n := by
  have hlength := congrArg List.length h
  simp only [List.length_take] at hlength
  have hpad : n - (cstr left).length = n - (cstr right).length := by omega
  rw [strncpy, strncpy, h, hpad]

/-- **Copying a bounded copy again changes nothing.** -/
theorem strncpy_strncpy_nul (src : Bytes) (n : Nat) :
    strncpy (strncpy src n ++ [0]) n = strncpy src n := by
  refine strncpy_congr ?_
  rw [cstr_strncpy_nul, List.take_take, Nat.min_self]

end Cdht.Strings
