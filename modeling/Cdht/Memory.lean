/-
  Cdht/Memory.lean
  ================
  **Byte memory, allocated blocks and mutexes for shallow embeddings of C.**

  Nothing in this file is about a particular program.  A C function that may
  touch memory or block on a mutex is embedded as a function into `Exec`, whose
  errors are the events at which the C standard (or POSIX) gives the run no
  continuation: an access outside an object, a read of a byte nobody wrote, a
  thread that waits for a mutex it already holds.  A theorem "the result is
  `.ok`" is then a memory-safety and no-self-deadlock statement, and a theorem
  that names the error says which event happens.

    * `readAt` / `writeAt`   — `memcpy` out of and into an object of known size;
    * `Block`                — a `malloc`ed object, whose bytes start unwritten;
    * `Mutex`                — a POSIX mutex with default attributes, or one whose
                               operations are ignored (`MutexKind.transparent`).
-/
import Mathlib.Data.List.Basic

namespace Cdht.Memory

abbrev Bytes := List UInt8

abbrev CharArray (n : Nat) := {bytes : Bytes // bytes.length = n}

/-- The events at which a run of C code has no defined continuation. -/
inductive Fault where
  | outOfBounds (index : Nat)  -- the first byte index outside the object
  | nullPointer                -- a NULL pointer used as the address of an object
  | uninitialised              -- a byte of a `malloc`ed object read before it is written
  | selfDeadlock               -- a thread locks a mutex that it holds: it waits forever
  | unlockOfFree               -- a thread unlocks a mutex that nobody holds
deriving DecidableEq, Repr

abbrev Exec (α : Type) := Except Fault α

@[simp] theorem ok_bind {α β : Type} (value : α) (next : α → Exec β) :
    (Except.ok value >>= next : Exec β) = next value := rfl

@[simp] theorem error_bind {α β : Type} (fault : Fault) (next : α → Exec β) :
    (Except.error fault >>= next : Exec β) = Except.error fault := rfl

/-- A run that returns is made of a first part that returns and of the rest. -/
theorem bind_eq_ok {α β : Type} {first : Exec α} {next : α → Exec β} {result : β}
    (h : first >>= next = .ok result) : ∃ value, first = .ok value ∧ next value = .ok result := by
  cases first with
  | error fault => cases h
  | ok value => exact ⟨value, rfl, h⟩

@[simp] theorem pure_eq_ok {α : Type} (value : α) : (pure value : Exec α) = Except.ok value := rfl

/-! ### Reading and writing objects of known size -/

section Objects

variable {α : Type}

def slice (object : List α) (offset n : Nat) : List α := (object.drop offset).take n

def readAt (object : List α) (offset n : Nat) : Exec (List α) :=
  if offset + n ≤ object.length then .ok (slice object offset n)
  else .error (.outOfBounds (max offset object.length))

def writeAt (object : List α) (offset : Nat) (cells : List α) : Exec (List α) :=
  if offset + cells.length ≤ object.length then
    .ok (object.take offset ++ cells ++ object.drop (offset + cells.length))
  else .error (.outOfBounds (max offset object.length))

theorem length_slice {object : List α} {offset n : Nat} (h : offset + n ≤ object.length) :
    (slice object offset n).length = n := by
  simp only [slice, List.length_take, List.length_drop]
  omega

theorem readAt_eq_ok {object : List α} {offset n : Nat} (h : offset + n ≤ object.length) :
    readAt object offset n = .ok (slice object offset n) := if_pos h

theorem slice_append_slice (object : List α) (offset m n : Nat) :
    slice object offset m ++ slice object (offset + m) n = slice object offset (m + n) := by
  rw [slice, slice, slice, ← List.drop_drop, List.take_add]

theorem slice_middle {before piece after : List α} {offset n : Nat}
    (hoffset : offset = before.length) (hn : n = piece.length) :
    slice (before ++ piece ++ after) offset n = piece := by
  rw [slice, hoffset, hn, List.append_assoc, List.drop_left, List.take_left]

theorem slice_slice {object : List α} {offset n inner m : Nat} (h : inner + m ≤ n) :
    slice (slice object offset n) inner m = slice object (offset + inner) m := by
  rw [slice, slice, slice, List.drop_take, List.take_take, List.drop_drop,
    Nat.min_eq_left (Nat.le_sub_of_add_le' h)]

theorem slice_append_of_le {object : List α} {offset n : Nat} (h : offset + n ≤ object.length)
    (after : List α) : slice (object ++ after) offset n = slice object offset n := by
  rw [slice, slice, List.drop_append_of_le_length (by omega),
    List.take_append_of_le_length (by rw [List.length_drop]; omega)]

theorem slice_one {object : List α} {index : Nat} (h : index < object.length) :
    slice object index 1 = [object[index]] := by
  rw [slice, List.drop_eq_getElem_cons h, List.take_succ_cons, List.take_zero]

theorem writeAt_append (before old after cells : List α) (h : old.length = cells.length) :
    writeAt (before ++ old ++ after) before.length cells = .ok (before ++ cells ++ after) := by
  have hfits : before.length + cells.length ≤ (before ++ old ++ after).length := by
    simp only [List.length_append]
    omega
  have hbefore : (before ++ old ++ after).take before.length = before := by
    rw [List.append_assoc, List.take_left]
  have hafter : (before ++ old ++ after).drop (before.length + cells.length) = after := by
    rw [← h, ← List.length_append, List.drop_left]
  rw [writeAt, if_pos hfits, hbefore, hafter]

end Objects

def readByte (object : Bytes) (index : Nat) : Exec UInt8 :=
  if h : index < object.length then .ok object[index] else .error (.outOfBounds index)

theorem readByte_eq_ok {object : Bytes} {index : Nat} (h : index < object.length) :
    readByte object index = .ok object[index] := dif_pos h

def readArray (object : Bytes) (offset n : Nat) : Exec (CharArray n) :=
  if h : offset + n ≤ object.length then .ok ⟨slice object offset n, length_slice h⟩
  else .error (.outOfBounds (max offset object.length))

theorem readArray_eq_ok {object : Bytes} {offset n : Nat} (h : offset + n ≤ object.length) :
    readArray object offset n = .ok ⟨slice object offset n, length_slice h⟩ := dif_pos h

theorem readArray_eq_error {object : Bytes} {offset n : Nat} (h : object.length < offset + n) :
    readArray object offset n = .error (.outOfBounds (max offset object.length)) :=
  dif_neg (Nat.not_le.mpr h)

/-! ### Allocated blocks -/

/-- A `malloc`ed object: `none` marks a byte that nobody has written yet. -/
abbrev Block := List (Option UInt8)

def malloc (n : Nat) : Block := List.replicate n none

def store (block : Block) (offset : Nat) (bytes : Bytes) : Exec Block :=
  writeAt block offset (bytes.map some)

def written : Block → Exec Bytes
  | [] => .ok []
  | some byte :: rest => do
      let bytes ← written rest
      return byte :: bytes
  | none :: _ => .error .uninitialised

def load (block : Block) (n : Nat) : Exec Bytes := do
  let cells ← readAt block 0 n
  written cells

/-- The string that begins at the cell `index` of a block, where `cells` are the
    cells from there on: what a `%s` conversion prints. -/
def stringAt (index : Nat) (cells : Block) : Exec Bytes :=
  match cells with
  | [] => .error (.outOfBounds index)
  | none :: _ => .error .uninitialised
  | some byte :: rest =>
    if byte = 0 then .ok [] else do
      let bytes ← stringAt (index + 1) rest
      return byte :: bytes

/-- What a block holds while it is filled from the left: `bytes`, then `room`
    bytes that are still unwritten. -/
def filled (bytes : Bytes) (room : Nat) : Block := bytes.map some ++ List.replicate room none

theorem malloc_eq_filled (n : Nat) : malloc n = filled [] n := rfl

@[simp] theorem length_filled (bytes : Bytes) (room : Nat) :
    (filled bytes room).length = bytes.length + room := by
  simp [filled]

/-- **Filling a block from the left.**  A store that begins behind `bytes` and covers
    the bytes written behind them, such as a terminating NUL, replaces those. -/
theorem store_over_filled {bytes old more : Bytes} {offset room left : Nat}
    (hoffset : offset = bytes.length) (hold : old.length ≤ more.length)
    (hroom : old.length + room = more.length + left) :
    store (filled (bytes ++ old) room) offset more = .ok (filled (bytes ++ more) left) := by
  have hcovered : more.length - old.length + left = room := by omega
  have hsplit : filled (bytes ++ old) room =
      bytes.map some ++ (old.map some ++ List.replicate (more.length - old.length) none) ++
        List.replicate left none := by
    rw [filled, ← hcovered, ← List.replicate_append_replicate, List.map_append]
    simp only [List.append_assoc]
  have hlength : (old.map some ++ List.replicate (more.length - old.length) none).length =
      (more.map some).length := by
    simp only [List.length_append, List.length_map, List.length_replicate]
    omega
  have hstore := writeAt_append (bytes.map some) _ (List.replicate left none) _ hlength
  rw [List.length_map, ← hsplit] at hstore
  rw [store, hoffset, hstore, filled, List.map_append]

theorem store_filled {bytes more : Bytes} {offset room left : Nat}
    (hoffset : offset = bytes.length) (hroom : room = more.length + left) :
    store (filled bytes room) offset more = .ok (filled (bytes ++ more) left) := by
  have hstore : store (filled (bytes ++ []) room) offset more =
      .ok (filled (bytes ++ more) left) :=
    store_over_filled hoffset (Nat.zero_le more.length) (by rw [hroom]; exact Nat.zero_add _)
  rwa [List.append_nil] at hstore

theorem written_map_some (bytes : Bytes) : written (bytes.map some) = .ok bytes := by
  induction bytes with
  | nil => rfl
  | cons byte rest ih => simp only [List.map_cons, written, ih, ok_bind, pure_eq_ok]

theorem stringAt_filled {text : Bytes} (h : (0 : UInt8) ∉ text) (room index : Nat) :
    stringAt index (filled (text ++ [0]) room) = .ok text := by
  induction text generalizing index with
  | nil => rfl
  | cons byte rest ih =>
    rw [List.mem_cons, not_or] at h
    show (if byte = 0 then _ else stringAt (index + 1) (filled (rest ++ [0]) room) >>= _) = _
    rw [if_neg (Ne.symm h.1), ih h.2]
    rfl

theorem load_filled {bytes : Bytes} {room n : Nat} (h : n ≤ bytes.length) :
    load (filled bytes room) n = .ok (bytes.take n) := by
  have hin : 0 + n ≤ (filled bytes room).length := by
    rw [length_filled]
    omega
  have hslice : slice (filled bytes room) 0 n = (bytes.take n).map some := by
    rw [slice, List.drop_zero, filled, List.take_append_of_le_length (by simpa using h),
      List.map_take]
  rw [load, readAt_eq_ok hin, ok_bind, hslice, written_map_some]

/-! ### Mutexes -/

inductive Mutex where
  | free
  | held
deriving DecidableEq, Repr

/-- How mutex operations are read.  `normal` is a POSIX mutex with default
    attributes, which is not recursive; `transparent` ignores the operations, for
    statements about what a function computes apart from its locking. -/
inductive MutexKind where
  | normal
  | transparent
deriving DecidableEq, Repr

def Mutex.lock : MutexKind → Mutex → Exec Mutex
  | .normal, .free => .ok .held
  | .normal, .held => .error .selfDeadlock
  | .transparent, mutex => .ok mutex

def Mutex.unlock : MutexKind → Mutex → Exec Mutex
  | .normal, .held => .ok .free
  | .normal, .free => .error .unlockOfFree
  | .transparent, mutex => .ok mutex

theorem Mutex.lock_free (kind : MutexKind) :
    ∃ locked, Mutex.lock kind .free = .ok locked ∧ Mutex.unlock kind locked = .ok .free := by
  cases kind with
  | normal => exact ⟨.held, rfl, rfl⟩
  | transparent => exact ⟨.free, rfl, rfl⟩

end Cdht.Memory
