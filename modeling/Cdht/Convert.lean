/-
  Cdht/Convert.lean
  =================
  **Hexadecimal renderings of hashes and byte strings.**

  Both functions of `helpers/convert.c` print one byte after another into a block
  they allocate, each `sprintf` putting a NUL behind its text that the next one
  overwrites.  The loops are embedded at that level, so that a write outside the
  block would be a fault; their specifications say that the block ends up with the
  rendering and one NUL.
-/
import Cdht.Format

namespace Cdht.Convert

open Cdht.Memory Cdht.Format

/-! ### The functions of the source -/

def sha1ToStringLoop (hash : Bytes) : (n offset : Nat) → Block → Exec Block
  | 0, _, output => .ok output
  | n + 1, offset, output => do
      let byte ← readByte hash offset
      let (output, _) ← sprintf output (2 * offset) (lowerHex byte)
      sha1ToStringLoop hash n (offset + 1) output

def cvtSha1ToString (hash : CharArray 20) : Exec Block :=
  sha1ToStringLoop hash.val 20 0 (malloc 41)

/-- The loop of `cvt_bytes_to_hex`, with `n` iterations to go; `p` is the distance of
    the write pointer from the beginning of the block. -/
def bytesToHexLoop (data : Bytes) (len : Nat) : (n i : Nat) → Block → Nat → Exec (Block × Nat)
  | 0, _, output, p => .ok (output, p)
  | n + 1, i, output, p => do
      let b ← readByte data i
      let (output, written) ← sprintf output p (ascii "0x" ++ upperHex b)
      if i + 1 < len then
        let output ← store output (p + written) (ascii " ")
        bytesToHexLoop data len n (i + 1) output (p + written + 1)
      else
        bytesToHexLoop data len n (i + 1) output (p + written)

/-- `cvt_bytes_to_hex`: the block that `*output` points to, NULL when it cannot be
    allocated, and the returned length. -/
def cvtBytesToHex (alloc : Bool) (data : Bytes) (len : Nat) : Exec (Option Block × Nat) := do
  let outLen := len * 5 % 2 ^ 64
  if !alloc then
    return (none, 0)
  let (output, p) ← bytesToHexLoop data len len 0 (malloc ((outLen + 1) % 2 ^ 64)) 0
  let output ← store output p [0]
  return (some output, p)

/-! ### Renderings -/

def hexDigits (bytes : Bytes) : Bytes := bytes.flatMap lowerHex

def hexText : Bytes → Bytes
  | [] => []
  | [byte] => ascii "0x" ++ upperHex byte
  | byte :: next :: rest => ascii "0x" ++ upperHex byte ++ ascii " " ++ hexText (next :: rest)

theorem length_hexDigits (bytes : Bytes) : (hexDigits bytes).length = 2 * bytes.length := by
  induction bytes with
  | nil => rfl
  | cons byte rest ih =>
    rw [hexDigits, List.flatMap_cons, List.length_append, length_lowerHex, List.length_cons]
    rw [hexDigits] at ih
    omega

theorem length_hexText (bytes : Bytes) : (hexText bytes).length = 5 * bytes.length - 1 := by
  fun_induction hexText bytes with
  | case1 => rfl
  | case2 byte => rfl
  | case3 byte next rest ih =>
    have hunit : (ascii "0x" ++ upperHex byte ++ ascii " ").length = 5 := rfl
    rw [List.length_append, hunit, ih]
    simp only [List.length_cons]
    omega

theorem nul_not_mem_hexDigits (bytes : Bytes) : (0 : UInt8) ∉ hexDigits bytes := by
  intro hmem
  obtain ⟨byte, -, hbyte⟩ := List.mem_flatMap.mp hmem
  exact nul_not_mem_lowerHex byte hbyte

theorem nul_not_mem_hexText (bytes : Bytes) : (0 : UInt8) ∉ hexText bytes := by
  have hmark : (0 : UInt8) ∉ ascii "0x" := by decide
  have hspace : (0 : UInt8) ∉ ascii " " := by decide
  fun_induction hexText bytes with
  | case1 => exact List.not_mem_nil
  | case2 byte =>
    rw [List.mem_append, not_or]
    exact ⟨hmark, nul_not_mem_upperHex byte⟩
  | case3 byte next rest ih =>
    simp only [List.mem_append, not_or]
    exact ⟨⟨⟨hmark, nul_not_mem_upperHex byte⟩, hspace⟩, ih⟩

/-! ### The loops write the renderings -/

theorem readByte_append_cons (done : Bytes) (byte : UInt8) (rest : Bytes) :
    readByte (done ++ byte :: rest) done.length = .ok byte := by
  rw [readByte_eq_ok (by simp)]
  simp

theorem sha1ToStringLoop_eq (rest : Bytes) : ∀ done : Bytes,
    sha1ToStringLoop (done ++ rest) rest.length done.length
        (filled (hexDigits done ++ [0]) (2 * rest.length)) =
      .ok (filled (hexDigits (done ++ rest) ++ [0]) 0) := by
  induction rest with
  | nil =>
    intro done
    rw [List.append_nil]
    rfl
  | cons byte rest ih =>
    intro done
    have hprint : sprintf (filled (hexDigits done ++ [0]) (2 * (byte :: rest).length))
        (2 * done.length) (lowerHex byte) =
        .ok (filled (hexDigits done ++ lowerHex byte ++ [0]) (2 * rest.length), 2) := by
      apply sprintf_over_filled
      · rw [length_hexDigits]
      · simp
      · simp only [List.length_cons, List.length_nil, length_lowerHex]
        omega
    have hdone : hexDigits done ++ lowerHex byte = hexDigits (done ++ [byte]) := by
      simp [hexDigits]
    have hlength : (done ++ [byte]).length = done.length + 1 := List.length_append
    have hrest := ih (done ++ [byte])
    rw [hlength, List.append_assoc, List.singleton_append] at hrest
    rw [List.length_cons, sha1ToStringLoop, readByte_append_cons, ok_bind, ← List.length_cons,
      hprint, ok_bind, hdone]
    exact hrest

/-- **`cvt_sha1_to_string` prints forty digits and a NUL into its 41 bytes.** -/
theorem cvtSha1ToString_eq (hash : CharArray 20) :
    cvtSha1ToString hash = .ok (filled (hexDigits hash.val ++ [0]) 0) := by
  obtain ⟨bytes, hlength⟩ := hash
  rcases bytes with _ | ⟨byte, rest⟩
  · cases hlength
  · have hrest : rest.length = 19 := Nat.succ.inj hlength
    have hprint : sprintf (filled ([] ++ []) 41) 0 (lowerHex byte) =
        .ok (filled ([] ++ lowerHex byte ++ [0]) 38, 2) :=
      sprintf_over_filled rfl (Nat.zero_le _) rfl
    have hloop := sha1ToStringLoop_eq rest [byte]
    rw [hrest] at hloop
    rw [cvtSha1ToString, malloc_eq_filled]
    show sha1ToStringLoop (byte :: rest) (19 + 1) 0 _ = _
    rw [sha1ToStringLoop, readByte_eq_ok (by simp), ok_bind]
    show (sprintf (filled ([] ++ []) 41) 0 (lowerHex byte) >>= _) = _
    rw [hprint, ok_bind]
    exact hloop

/-- The loop of `cvt_bytes_to_hex` leaves the rendering in the block, and behind it at
    most the NUL of the last `sprintf`. -/
theorem bytesToHexLoop_eq (rest : Bytes) : ∀ done text : Bytes,
    ∃ old room, old.length ≤ 1 ∧
      (hexText rest).length + old.length + room = 5 * rest.length + 1 ∧
      bytesToHexLoop (done ++ rest) (done ++ rest).length rest.length done.length
          (filled text (5 * rest.length + 1)) text.length =
        .ok (filled (text ++ hexText rest ++ old) room, (text ++ hexText rest).length) := by
  induction rest with
  | nil =>
    intro done text
    refine ⟨[], 1, by simp, rfl, ?_⟩
    simp only [hexText, List.append_nil, List.length_nil]
    rfl
  | cons byte rest ih =>
    intro done text
    have hread := readByte_append_cons done byte rest
    have hprint : sprintf (filled (text ++ []) (5 * (byte :: rest).length + 1)) text.length
        (ascii "0x" ++ upperHex byte) =
        .ok (filled (text ++ (ascii "0x" ++ upperHex byte) ++ [0]) (5 * rest.length + 1), 4) := by
      apply sprintf_over_filled rfl (Nat.zero_le _)
      have hunit : (ascii "0x" ++ upperHex byte).length = 4 := rfl
      rw [hunit, List.length_cons, List.length_nil]
      omega
    rw [List.append_nil] at hprint
    rw [List.length_cons, bytesToHexLoop, hread, ok_bind, ← List.length_cons, hprint, ok_bind]
    rcases rest with _ | ⟨next, rest⟩
    · have hlast : ¬ done.length + 1 < (done ++ [byte]).length := by simp
      refine ⟨[0], 1, by simp, rfl, ?_⟩
      have hlength : (text ++ hexText [byte]).length = text.length + 4 := List.length_append
      simp only [if_neg hlast, hlength]
      rfl
    · have hmore : done.length + 1 < (done ++ byte :: next :: rest).length := by simp
      have hspace : store (filled (text ++ (ascii "0x" ++ upperHex byte) ++ [0])
          (5 * (next :: rest).length + 1)) (text.length + 4) (ascii " ") =
          .ok (filled (text ++ (ascii "0x" ++ upperHex byte) ++ ascii " ")
            (5 * (next :: rest).length + 1)) :=
        store_over_filled (by simp [ascii]) (Nat.le_refl _) rfl
      obtain ⟨old, room, hold, hroom, hloop⟩ :=
        ih (done ++ [byte]) (text ++ (ascii "0x" ++ upperHex byte) ++ ascii " ")
      refine ⟨old, room, hold, ?_, ?_⟩
      · simp only [length_hexText, List.length_cons] at hroom ⊢
        omega
      · have htext : text ++ hexText (byte :: next :: rest) =
            text ++ (ascii "0x" ++ upperHex byte) ++ ascii " " ++ hexText (next :: rest) := by
          rw [hexText]
          simp only [List.append_assoc]
        have hlength : (text ++ (ascii "0x" ++ upperHex byte) ++ ascii " ").length =
            text.length + 4 + 1 := by
          simp [ascii]
        have hdone : (done ++ [byte]).length = done.length + 1 := List.length_append
        rw [List.append_assoc, List.singleton_append, hdone, hlength] at hloop
        simp only [if_pos hmore, hspace, ok_bind]
        rw [htext]
        exact hloop

/-- **`cvt_bytes_to_hex` prints the rendering and a NUL into its block.** -/
theorem cvtBytesToHex_eq {data : Bytes} (h : 5 * data.length + 1 < 2 ^ 64) :
    cvtBytesToHex true data data.length =
      .ok (some (filled (hexText data ++ [0]) (5 * data.length - (hexText data).length)),
        (hexText data).length) := by
  have hlen : (data.length * 5 % 2 ^ 64 + 1) % 2 ^ 64 = 5 * data.length + 1 := by omega
  obtain ⟨old, room, hold, hroom, hloop⟩ := bytesToHexLoop_eq data [] []
  have hend : store (filled (hexText data ++ old) room) (hexText data).length [0] =
      .ok (filled (hexText data ++ [0]) (5 * data.length - (hexText data).length)) := by
    apply store_over_filled rfl hold
    rw [length_hexText] at hroom ⊢
    rw [List.length_singleton]
    omega
  simp only [List.nil_append, List.length_nil] at hloop
  rw [cvtBytesToHex, hlen, malloc_eq_filled]
  simp only [Bool.not_true, Bool.false_eq_true, if_false]
  rw [hloop, ok_bind, hend]
  rfl

/-! ### Reading a rendering back -/

def digitOfUpper (char : UInt8) : Option Nat :=
  (List.range 16).find? fun digit => upperDigit digit = char

def byteOfHex (mark : Bytes) (high low : UInt8) : Option UInt8 :=
  if mark = ascii "0x" then
    match digitOfUpper high, digitOfUpper low with
    | some high, some low => some (UInt8.ofNat (16 * high + low))
    | _, _ => none
  else none

/-- The bytes that a text renders: the inverse of `hexText`. -/
def bytesOfHex : Bytes → Option Bytes
  | [] => some []
  | [zero, x, high, low] => (byteOfHex [zero, x] high low).map fun byte => [byte]
  | zero :: x :: high :: low :: space :: rest =>
      if [space] = ascii " " then
        match byteOfHex [zero, x] high low, bytesOfHex rest with
        | some byte, some bytes => some (byte :: bytes)
        | _, _ => none
      else none
  | _ => none

theorem digitOfUpper_upperDigit {digit : Nat} (h : digit < 16) :
    digitOfUpper (upperDigit digit) = some digit := by
  have hall : ∀ digit < 16, digitOfUpper (upperDigit digit) = some digit := by decide
  exact hall digit h

theorem byteOfHex_upperHex (byte : UInt8) :
    byteOfHex (ascii "0x") (upperDigit (byte.toNat / 16)) (upperDigit (byte.toNat % 16)) =
      some byte := by
  have hbyte : byte.toNat < 256 := byte.toNat_lt
  have hvalue : 16 * (byte.toNat / 16) + byte.toNat % 16 = byte.toNat := Nat.div_add_mod _ 16
  rw [byteOfHex, if_pos rfl, digitOfUpper_upperDigit (by omega), digitOfUpper_upperDigit (by omega)]
  simp only [hvalue, UInt8.ofNat_toNat]

/-- **A rendering determines its bytes.** -/
theorem bytesOfHex_hexText (bytes : Bytes) : bytesOfHex (hexText bytes) = some bytes := by
  fun_induction hexText bytes with
  | case1 => rfl
  | case2 byte =>
    show (byteOfHex (ascii "0x") _ _).map _ = _
    rw [byteOfHex_upperHex]
    rfl
  | case3 byte next rest ih =>
    show (if ascii " " = ascii " " then
      match byteOfHex (ascii "0x") _ _, bytesOfHex (hexText (next :: rest)) with
      | some byte, some bytes => some (byte :: bytes)
      | _, _ => none
      else none) = _
    rw [if_pos rfl, byteOfHex_upperHex, ih]

/-- **The hex renderer is in bounds and invertible.**  For every byte string whose
    rendering a `size_t` can measure: no write leaves the `5 * len + 1` bytes of the
    block; the returned length is 0 for no bytes and `5 * len - 1` otherwise, and it is
    the length of the string in the block; and that string reads back as the data, so
    that two byte strings with the same rendering are equal. -/
theorem hex_rendering_exact (data : Bytes) (h : 5 * data.length + 1 < 2 ^ 64) :
    ∃ output text, cvtBytesToHex true data data.length =
        .ok (some output, if data.length = 0 then 0 else 5 * data.length - 1) ∧
      output.length = 5 * data.length + 1 ∧
      stringAt 0 output = .ok text ∧
      text.length = (if data.length = 0 then 0 else 5 * data.length - 1) ∧
      bytesOfHex text = some data ∧
      ∀ other output' length', 5 * other.length + 1 < 2 ^ 64 →
        cvtBytesToHex true other other.length = .ok (some output', length') →
        stringAt 0 output' = .ok text → other = data := by
  have hlength : (hexText data).length = if data.length = 0 then 0 else 5 * data.length - 1 := by
    rw [length_hexText]
    split
    · rename_i hempty
      rw [hempty]
    · rfl
  refine ⟨filled (hexText data ++ [0]) (5 * data.length - (hexText data).length), hexText data,
    ?_, ?_, stringAt_filled (nul_not_mem_hexText data) _ 0, hlength, bytesOfHex_hexText data, ?_⟩
  · rw [cvtBytesToHex_eq h, hlength]
  · rw [length_filled, List.length_append, List.length_singleton, length_hexText]
    omega
  · intro other output' length' hother hrun hstring
    rw [cvtBytesToHex_eq hother] at hrun
    cases hrun
    rw [stringAt_filled (nul_not_mem_hexText other)] at hstring
    have hdecoded := bytesOfHex_hexText other
    rw [Except.ok.inj hstring, bytesOfHex_hexText] at hdecoded
    exact (Option.some.inj hdecoded).symm

theorem hex_rendering_exact_twoBytes :
    ∃ output text, cvtBytesToHex true [0x0A, 0xFF] 2 = .ok (some output, 9) ∧
      stringAt 0 output = .ok text ∧ text.length = 9 ∧ bytesOfHex text = some [0x0A, 0xFF] := by
  obtain ⟨output, text, hrun, -, hstring, hlength, hdecoded, -⟩ :=
    hex_rendering_exact [0x0A, 0xFF] (by decide)
  exact ⟨output, text, hrun, hstring, hlength, hdecoded⟩

end Cdht.Convert
