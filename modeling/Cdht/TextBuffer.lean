/-
  Cdht/TextBuffer.lean
  ====================
  **Strings that are taken apart inside a buffer.**

  C code that parses a line in place holds pointers into one `char` array and cuts the
  text by writing NULs into it.  A pointer is an index of a block; `TextAt block index
  text` says that the string at that index is `text`.  Moving a pointer forward
  (`TextAt.suffix`), cutting a string (`TextAt.cut`) and cutting elsewhere in the block
  (`TextAt.of_drop_eq`, `TextAt.of_take_eq`) are the three things that happen to such a
  string.  `scan` is the loop `while (*s && ...) s++` with some state of its own.

  Nothing in this file is about a particular program.
-/
import Cdht.Strings

namespace Cdht.TextBuffer

open Cdht.Memory Cdht.Strings

/-! ### Single characters -/

/-- `block[index]`. -/
def charAt (block : Block) (index : Nat) : Exec UInt8 :=
  match block[index]? with
  | none => .error (.outOfBounds index)
  | some none => .error .uninitialised
  | some (some char) => .ok char

/-- `block[index] = '\0'`. -/
def putNul (block : Block) (index : Nat) : Exec Block := store block index [0]

theorem store_singleton {block : Block} {index : Nat} (h : index < block.length) (char : UInt8) :
    store block index [char] = .ok (block.set index (some char)) := by
  have hset : block.set index (some char) =
      block.take index ++ [some char] ++ block.drop (index + 1) := by
    rw [List.set_eq_take_append_cons_drop, if_pos h, List.append_assoc, List.singleton_append]
  have hfits : index + ([char].map some : Block).length ≤ block.length := h
  rw [store, writeAt, if_pos hfits, hset]
  rfl

theorem putNul_eq {block : Block} {index : Nat} (h : index < block.length) :
    putNul block index = .ok (block.set index (some 0)) := store_singleton h 0

/-! ### Scanning -/

section Scan

variable {τ : Type} (step : τ → UInt8 → Option τ)

/-- The loop `while (*s && ...) s++` on the cells from `s` on; `step` is the rest of
    its condition, with the state that the body updates. -/
def scan (state : τ) (s : Nat) : Block → Exec Nat
  | [] => .error (.outOfBounds s)
  | none :: _ => .error .uninitialised
  | some char :: rest =>
      if char = 0 then .ok s else
        match step state char with
        | none => .ok s
        | some state => scan state (s + 1) rest

/-- The characters that the loop passes over. -/
def scanned (state : τ) : Bytes → Bytes
  | [] => []
  | char :: rest =>
      match step state char with
      | none => []
      | some state => char :: scanned state rest

theorem scanned_front (state : τ) (text : Bytes) : scanned step state text <+: text := by
  induction text generalizing state with
  | nil => exact List.nil_prefix
  | cons char rest ih =>
    unfold scanned
    split
    · exact List.nil_prefix
    · exact List.prefix_cons_inj char |>.mpr (ih _)

/-- A loop that passes over characters of one kind. -/
theorem scanned_eq_takeWhile (p : UInt8 → Bool) (text : Bytes) :
    scanned (fun (_ : Unit) char => if p char then some () else none) () text =
      text.takeWhile p := by
  induction text with
  | nil => rfl
  | cons char rest ih =>
    by_cases h : p char = true
    · rw [List.takeWhile_cons_of_pos h, ← ih, scanned, if_pos h]
    · rw [List.takeWhile_cons_of_neg h, scanned, if_neg h]

end Scan

/-! ### Strings in a block -/

/-- The string at `index` is `text`. -/
structure TextAt (block : Block) (index : Nat) (text : Bytes) : Prop where
  cells : (text ++ [0]).map some <+: block.drop index
  noNul : (0 : UInt8) ∉ text

section Texts

variable {block : Block} {index : Nat} {text : Bytes}

theorem TextAt.exists_rest (h : TextAt block index text) :
    ∃ rest, block.drop index = text.map some ++ some 0 :: rest := by
  obtain ⟨rest, hrest⟩ := h.cells
  refine ⟨rest, ?_⟩
  rw [← hrest, List.map_append, List.append_assoc]
  rfl

theorem textAt_of_drop_eq {rest : Block} (h : block.drop index = text.map some ++ some 0 :: rest)
    (hnul : (0 : UInt8) ∉ text) : TextAt block index text := by
  refine ⟨⟨rest, ?_⟩, hnul⟩
  rw [h, List.map_append, List.append_assoc]
  rfl

theorem TextAt.length_lt (h : TextAt block index text) : index + text.length < block.length := by
  have hlength := h.cells.length_le
  rw [List.length_map, List.length_append, List.length_singleton, List.length_drop] at hlength
  omega

/-- Moving a pointer forward. -/
theorem TextAt.suffix {front back : Bytes} (h : TextAt block index (front ++ back)) :
    TextAt block (index + front.length) back := by
  obtain ⟨rest, hrest⟩ := h.exists_rest
  have hback : block.drop (index + front.length) = back.map some ++ some 0 :: rest := by
    rw [← List.drop_drop, hrest, List.map_append, List.append_assoc,
      List.drop_left' (List.length_map _)]
  exact textAt_of_drop_eq hback fun hmem => h.noNul (List.mem_append_right _ hmem)

theorem TextAt.drop (h : TextAt block index text) {n : Nat} (hn : n ≤ text.length) :
    TextAt block (index + n) (text.drop n) := by
  rw [← List.take_append_drop n text] at h
  have hsuffix := h.suffix
  rwa [List.length_take, Nat.min_eq_left hn] at hsuffix

theorem TextAt.tail {char : UInt8} (h : TextAt block index (char :: text)) :
    TextAt block (index + 1) text := h.drop (Nat.succ_pos _)

theorem TextAt.stringAt (h : TextAt block index text) :
    stringAt index (block.drop index) = .ok text := by
  obtain ⟨rest, hrest⟩ := h.exists_rest
  have hnul := h.noNul
  clear h
  rw [hrest]
  clear hrest
  induction text generalizing index with
  | nil => rfl
  | cons char text ih =>
    rw [List.mem_cons, not_or] at hnul
    rw [List.map_cons, List.cons_append, Memory.stringAt, if_neg (Ne.symm hnul.1), ih hnul.2]
    rfl

/-- The character under a pointer, where the end of the string reads as NUL. -/
theorem TextAt.charAt (h : TextAt block index text) :
    charAt block index = .ok (text.head?.getD 0) := by
  obtain ⟨rest, hrest⟩ := h.exists_rest
  have hcell : block[index]? = (text.map some ++ some 0 :: rest)[0]? := by
    rw [← hrest, List.getElem?_drop, Nat.add_zero]
  rw [TextBuffer.charAt, hcell]
  cases text with
  | nil => rfl
  | cons char text => rfl

theorem TextAt.scan {τ : Type} (step : τ → UInt8 → Option τ) (state : τ)
    (h : TextAt block index text) :
    scan step state index (block.drop index) =
      .ok (index + (scanned step state text).length) := by
  obtain ⟨rest, hrest⟩ := h.exists_rest
  have hnul := h.noNul
  clear h
  rw [hrest]
  clear hrest
  induction text generalizing index state with
  | nil => rfl
  | cons char text ih =>
    rw [List.mem_cons, not_or] at hnul
    rw [List.map_cons, List.cons_append, TextBuffer.scan, if_neg (Ne.symm hnul.1)]
    rcases hstep : step state char with _ | next
    · simp only [scanned, hstep, List.length_nil, Nat.add_zero]
    · simp only [scanned, hstep, List.length_cons, ih next hnul.2]
      congr 1
      omega

/-! ### Cutting -/

/-- Writing a NUL into a string splits it. -/
theorem TextAt.cut {front back : Bytes} {char : UInt8}
    (h : TextAt block index (front ++ char :: back)) :
    TextAt (block.set (index + front.length) (some 0)) index front ∧
      TextAt (block.set (index + front.length) (some 0)) (index + front.length + 1) back := by
  obtain ⟨rest, hrest⟩ := h.exists_rest
  rw [List.map_append, List.map_cons, List.append_assoc, List.cons_append] at hrest
  have hcut : (block.set (index + front.length) (some 0)).drop index =
      front.map some ++ some 0 :: (back.map some ++ some 0 :: rest) := by
    rw [List.drop_set, if_neg (by omega), hrest, Nat.add_sub_cancel_left,
      List.set_append_right _ _ (by simp)]
    simp
  have hback : (block.set (index + front.length) (some 0)).drop (index + front.length + 1) =
      back.map some ++ some 0 :: rest := by
    rw [Nat.add_assoc, ← List.drop_drop, hcut, List.append_cons, List.drop_left' (by simp)]
  constructor
  · exact textAt_of_drop_eq hcut fun hmem => h.noNul (List.mem_append_left _ hmem)
  · exact textAt_of_drop_eq hback fun hmem =>
      h.noNul (List.mem_append_right _ (List.mem_cons_of_mem _ hmem))

/-- A NUL behind characters that were written from the left. -/
theorem textAt_set_nul (hfront : block.take index = text.map some) (hindex : index < block.length)
    (hnul : (0 : UInt8) ∉ text) : TextAt (block.set index (some 0)) 0 text := by
  have hcells : (block.set index (some 0)).drop 0 =
      text.map some ++ some 0 :: block.drop (index + 1) := by
    rw [List.drop_zero, List.set_eq_take_append_cons_drop, if_pos hindex, hfront]
  exact textAt_of_drop_eq hcells hnul

theorem cstr_before_nul (piece : Bytes) : cstr piece ++ [0] <+: piece ++ [0] := by
  induction piece with
  | nil => exact List.prefix_refl _
  | cons byte piece ih =>
    rw [cstr_cons]
    split
    · rename_i hnul
      rw [hnul]
      exact List.prefix_append [0] _
    · exact (List.prefix_cons_inj byte).mpr ih

/-- A terminated piece of bytes is read up to its first NUL. -/
theorem textAt_cstr {piece : Bytes} {rest : Block}
    (h : block.drop index = (piece ++ [0]).map some ++ rest) : TextAt block index (cstr piece) := by
  refine ⟨?_, nul_not_mem_cstr piece⟩
  rw [h]
  exact ((cstr_before_nul piece).map some).trans (List.prefix_append _ _)

/-- Writing a NUL at the end of a string changes nothing. -/
theorem TextAt.set_end (h : TextAt block index text) :
    block.set (index + text.length) (some 0) = block := by
  obtain ⟨rest, hrest⟩ := h.exists_rest
  have hcell : block[index + text.length]? = some (some 0) := by
    rw [← List.getElem?_drop, hrest, List.getElem?_append_right (by simp)]
    simp
  obtain ⟨hlt, hvalue⟩ := List.getElem?_eq_some_iff.mp hcell
  rw [← hvalue]
  exact List.set_getElem_self hlt

/-- A string behind the part of a block that changes. -/
theorem TextAt.of_drop_eq {block' : Block} {stop : Nat} (h : TextAt block index text)
    (hstop : stop ≤ index) (hsame : block'.drop stop = block.drop stop) :
    TextAt block' index text := by
  obtain ⟨more, rfl⟩ := Nat.exists_eq_add_of_le hstop
  refine ⟨?_, h.noNul⟩
  rw [← List.drop_drop, hsame, List.drop_drop]
  exact h.cells

/-- A string before the part of a block that changes. -/
theorem TextAt.of_take_eq {block' : Block} {stop : Nat} (h : TextAt block index text)
    (hstop : index + text.length < stop) (hsame : block'.take stop = block.take stop) :
    TextAt block' index text := by
  have hcells : ∀ cells : Block, (text ++ [0]).map some <+: cells.drop index ↔
      (text ++ [0]).map some <+: (cells.take stop).drop index := by
    intro cells
    rw [List.drop_take, List.prefix_take_iff]
    simp only [List.length_map, List.length_append, List.length_singleton]
    constructor
    · intro hfront
      exact ⟨hfront, by omega⟩
    · exact And.left
  refine ⟨?_, h.noNul⟩
  rw [hcells, hsame, ← hcells]
  exact h.cells

end Texts

end Cdht.TextBuffer
