/-
  Cdht/Sha1.lean
  ==============
  **The vendored SHA-1** (`src/helpers/sha1.c`, `include/helpers/sha1.h`).

  The model follows the C code line by line: a context with a 64-bit length in two
  words and a 64-byte buffer that starts unwritten, the eighty unrolled rounds over
  five variables whose roles rotate, and a message schedule that lives in sixteen
  words and is expanded while the rounds run.  `uint32_t` is `UInt32`, so every
  addition wraps as in C.  The machine is little-endian, for which `blk0` swaps the
  bytes of a word.

  A pair of arguments `data`, `len` describes `len` bytes at `data`, which is the type
  `Data`.
-/
import Cdht.ByteOrder
import Mathlib.Algebra.Ring.Nat

namespace Cdht.Sha1

open Cdht.Memory Cdht.ByteOrder

/-- `SHA1_CTX`. -/
structure Sha1Ctx where
  state : Vector UInt32 5
  count0 : UInt32   -- `count[0]`: the low word of the length in bits
  count1 : UInt32   -- `count[1]`
  buffer : Block    -- `unsigned char buffer[64]`

/-- The `len` bytes at `data`, where `len` is a `uint32_t`. -/
abbrev Data := {bytes : Bytes // bytes.length < 2 ^ 32}

def Data.len (data : Data) : UInt32 := UInt32.ofNat data.val.length

def rol (value bits : UInt32) : UInt32 := (value <<< bits) ||| (value >>> (32 - bits))

/-! ### One block -/

abbrev Words := Vector UInt32 16

theorem and_fifteen_lt (i : Nat) : i &&& 15 < 16 := Nat.and_lt_two_pow (n := 4) i (by decide)

/-- The index `i&15` of the circular schedule. -/
def slot (i : Nat) : Fin 16 := ⟨i &&& 15, and_fifteen_lt i⟩

def blk0 (block : Words) (i : Fin 16) : UInt32 × Words :=
  let word := (rol block[i] 24 &&& 0xFF00FF00) ||| (rol block[i] 8 &&& 0x00FF00FF)
  (word, block.set i word)

def blk (block : Words) (i : Nat) : UInt32 × Words :=
  let word := rol (block[slot (i + 13)] ^^^ block[slot (i + 8)] ^^^ block[slot (i + 2)] ^^^
    block[slot i]) 1
  (word, block.set (slot i) word)

/-- The local variables of `SHA1Transform`. -/
structure Vars where
  a : UInt32
  b : UInt32
  c : UInt32
  d : UInt32
  e : UInt32
  block : Words

inductive Var where
  | a | b | c | d | e
deriving DecidableEq

def Vars.get (vars : Vars) : Var → UInt32
  | .a => vars.a
  | .b => vars.b
  | .c => vars.c
  | .d => vars.d
  | .e => vars.e

def Vars.set (vars : Vars) (value : UInt32) : Var → Vars
  | .a => { vars with a := value }
  | .b => { vars with b := value }
  | .c => { vars with c := value }
  | .d => { vars with d := value }
  | .e => { vars with e := value }

/-- The shape that the macros `R0` to `R4` share. -/
def roundWith (mix : UInt32 → UInt32 → UInt32 → UInt32) (constant : UInt32)
    (expand : Words → UInt32 × Words) (v w x y z : Var) (vars : Vars) : Vars :=
  let (word, block) := expand vars.block
  let sum := mix (vars.get w) (vars.get x) (vars.get y) + word + constant + rol (vars.get v) 5
  let vars := { vars.set (vars.get z + sum) z with block := block }
  vars.set (rol (vars.get w) 30) w

def R0 (v w x y z : Var) (i : Fin 16) : Vars → Vars :=
  roundWith (fun w x y => (w &&& (x ^^^ y)) ^^^ y) 0x5A827999 (blk0 · i) v w x y z

def R1 (v w x y z : Var) (i : Nat) : Vars → Vars :=
  roundWith (fun w x y => (w &&& (x ^^^ y)) ^^^ y) 0x5A827999 (blk · i) v w x y z

def R2 (v w x y z : Var) (i : Nat) : Vars → Vars :=
  roundWith (fun w x y => w ^^^ x ^^^ y) 0x6ED9EBA1 (blk · i) v w x y z

def R3 (v w x y z : Var) (i : Nat) : Vars → Vars :=
  roundWith (fun w x y => ((w ||| x) &&& y) ||| (w &&& x)) 0x8F1BBCDC (blk · i) v w x y z

def R4 (v w x y z : Var) (i : Nat) : Vars → Vars :=
  roundWith (fun w x y => w ^^^ x ^^^ y) 0xCA62C1D6 (blk · i) v w x y z

/-- The unrolled rounds of `SHA1Transform`, in the order of the source. -/
def transformRounds : List (Vars → Vars) :=
  [R0 .a .b .c .d .e 0, R0 .e .a .b .c .d 1, R0 .d .e .a .b .c 2, R0 .c .d .e .a .b 3,
   R0 .b .c .d .e .a 4, R0 .a .b .c .d .e 5, R0 .e .a .b .c .d 6, R0 .d .e .a .b .c 7,
   R0 .c .d .e .a .b 8, R0 .b .c .d .e .a 9, R0 .a .b .c .d .e 10, R0 .e .a .b .c .d 11,
   R0 .d .e .a .b .c 12, R0 .c .d .e .a .b 13, R0 .b .c .d .e .a 14, R0 .a .b .c .d .e 15,
   R1 .e .a .b .c .d 16, R1 .d .e .a .b .c 17, R1 .c .d .e .a .b 18, R1 .b .c .d .e .a 19,
   R2 .a .b .c .d .e 20, R2 .e .a .b .c .d 21, R2 .d .e .a .b .c 22, R2 .c .d .e .a .b 23,
   R2 .b .c .d .e .a 24, R2 .a .b .c .d .e 25, R2 .e .a .b .c .d 26, R2 .d .e .a .b .c 27,
   R2 .c .d .e .a .b 28, R2 .b .c .d .e .a 29, R2 .a .b .c .d .e 30, R2 .e .a .b .c .d 31,
   R2 .d .e .a .b .c 32, R2 .c .d .e .a .b 33, R2 .b .c .d .e .a 34, R2 .a .b .c .d .e 35,
   R2 .e .a .b .c .d 36, R2 .d .e .a .b .c 37, R2 .c .d .e .a .b 38, R2 .b .c .d .e .a 39,
   R3 .a .b .c .d .e 40, R3 .e .a .b .c .d 41, R3 .d .e .a .b .c 42, R3 .c .d .e .a .b 43,
   R3 .b .c .d .e .a 44, R3 .a .b .c .d .e 45, R3 .e .a .b .c .d 46, R3 .d .e .a .b .c 47,
   R3 .c .d .e .a .b 48, R3 .b .c .d .e .a 49, R3 .a .b .c .d .e 50, R3 .e .a .b .c .d 51,
   R3 .d .e .a .b .c 52, R3 .c .d .e .a .b 53, R3 .b .c .d .e .a 54, R3 .a .b .c .d .e 55,
   R3 .e .a .b .c .d 56, R3 .d .e .a .b .c 57, R3 .c .d .e .a .b 58, R3 .b .c .d .e .a 59,
   R4 .a .b .c .d .e 60, R4 .e .a .b .c .d 61, R4 .d .e .a .b .c 62, R4 .c .d .e .a .b 63,
   R4 .b .c .d .e .a 64, R4 .a .b .c .d .e 65, R4 .e .a .b .c .d 66, R4 .d .e .a .b .c 67,
   R4 .c .d .e .a .b 68, R4 .b .c .d .e .a 69, R4 .a .b .c .d .e 70, R4 .e .a .b .c .d 71,
   R4 .d .e .a .b .c 72, R4 .c .d .e .a .b 73, R4 .b .c .d .e .a 74, R4 .a .b .c .d .e 75,
   R4 .e .a .b .c .d 76, R4 .d .e .a .b .c 77, R4 .c .d .e .a .b 78, R4 .b .c .d .e .a 79]

/-- The union `block` after the `memcpy`, read as words. -/
def blockWords (buffer : CharArray 64) : Words :=
  Vector.ofFn fun i => UInt32.ofNat (leValue (slice buffer.val (4 * i.val) 4))

def sha1Transform (state : Vector UInt32 5) (buffer : CharArray 64) : Vector UInt32 5 :=
  let vars : Vars := ⟨state[0], state[1], state[2], state[3], state[4], blockWords buffer⟩
  let vars := transformRounds.foldl (fun vars round => round vars) vars
  #v[state[0] + vars.a, state[1] + vars.b, state[2] + vars.c, state[3] + vars.d, state[4] + vars.e]

/-! ### The context -/

def sha1Init : Sha1Ctx where
  state := #v[0x67452301, 0xEFCDAB89, 0x98BADCFE, 0x10325476, 0xC3D2E1F0]
  count0 := 0
  count1 := 0
  buffer := malloc 64

/-- The 64 bytes that `SHA1Transform` copies from the buffer of the context. -/
def loadBuffer (buffer : Block) : Exec (CharArray 64) := do
  let bytes ← load buffer 64
  readArray bytes 0 64

theorem readArray_bound {object : Bytes} {offset n : Nat} {array : CharArray n}
    (h : readArray object offset n = .ok array) : offset + n ≤ object.length := by
  by_contra hbound
  rw [readArray_eq_error (by omega)] at h
  cases h

/-- The loop of `SHA1Update` over the whole blocks of `data`, with the final value
    of `i`. -/
def transformLoop (data : Data) (state : Vector UInt32 5) (i : UInt32) :
    Exec (Vector UInt32 5 × UInt32) :=
  if i + 63 < data.len then
    match hread : readArray data.val i.toNat 64 with
    | .error fault => .error fault
    | .ok block => transformLoop data (sha1Transform state block) (i + 64)
  else .ok (state, i)
termination_by data.val.length - i.toNat
decreasing_by
  -- a read that succeeds lies within `data`, so `i + 64` cannot wrap
  have hbound := readArray_bound hread
  have hlen := data.property
  have hnext : (i + 64).toNat = i.toNat + 64 := by
    rw [UInt32.toNat_add]
    exact Nat.mod_eq_of_lt (Nat.lt_of_le_of_lt hbound hlen)
  omega

/-- The length of the context after `len` more bytes. -/
def countedBy (context : Sha1Ctx) (len : UInt32) : Sha1Ctx :=
  let count0 := context.count0 + (len <<< 3)
  let carried := if count0 < context.count0 then context.count1 + 1 else context.count1
  { context with count0 := count0, count1 := carried + (len >>> 29) }

/-- The branch of `SHA1Update` that fills and empties the buffer: the context, `i` and
    `j` after it. -/
def updateBlocks (context : Sha1Ctx) (data : Data) (j : UInt32) :
    Exec (Sha1Ctx × UInt32 × UInt32) :=
  if j + data.len > 63 then do
    let i := 64 - j
    let front ← readAt data.val 0 i.toNat
    let buffer ← store context.buffer j.toNat front
    let block ← loadBuffer buffer
    let (state, i) ← transformLoop data (sha1Transform context.state block) i
    return ({ context with state := state, buffer := buffer }, i, 0)
  else return (context, 0, j)

def sha1Update (context : Sha1Ctx) (data : Data) : Exec Sha1Ctx := do
  let j := (context.count0 >>> 3) &&& 63
  let (context, i, j) ← updateBlocks (countedBy context data.len) data j
  let rest ← readAt data.val i.toNat (data.len - i).toNat
  let buffer ← store context.buffer j.toNat rest
  return { context with buffer := buffer }

/-! ### Padding and the digest -/

theorem updateBlocks_count0 {context after : Sha1Ctx} {data : Data} {i j j' : UInt32}
    (h : updateBlocks context data j = .ok (after, i, j')) : after.count0 = context.count0 := by
  unfold updateBlocks at h
  split at h
  · obtain ⟨front, _, h⟩ := bind_eq_ok h
    obtain ⟨buffer, _, h⟩ := bind_eq_ok h
    obtain ⟨block, _, h⟩ := bind_eq_ok h
    obtain ⟨⟨state, i'⟩, _, h⟩ := bind_eq_ok h
    cases h
    rfl
  · cases h
    rfl

theorem sha1Update_count0 {context after : Sha1Ctx} {data : Data}
    (h : sha1Update context data = .ok after) :
    after.count0 = context.count0 + (data.len <<< 3) := by
  obtain ⟨⟨filled, i, j⟩, hblocks, h⟩ := bind_eq_ok h
  obtain ⟨rest, _, h⟩ := bind_eq_ok h
  obtain ⟨buffer, _, h⟩ := bind_eq_ok h
  cases h
  exact updateBlocks_count0 hblocks

theorem length_singleton_lt (byte : UInt8) : [byte].length < 2 ^ 32 := by
  rw [List.length_singleton]
  decide

/-- One byte at `&c`. -/
def oneByte (byte : UInt8) : Data := ⟨[byte], length_singleton_lt byte⟩

theorem testBit_504 (i : Nat) :
    Nat.testBit 504 i = (decide (3 ≤ i) && decide (i - 3 < 6)) := by
  have hmask : (504 : Nat) = 2 ^ 3 * (2 ^ 6 - 1) := by decide
  rw [hmask, Nat.testBit_two_pow_mul, Nat.testBit_two_pow_sub_one]

/-- The mask 504 takes the number of bytes in the unfinished block out of a length in
    bits. -/
theorem toNat_and_504 (x : UInt32) : (x &&& 504).toNat = 8 * (x.toNat / 8 % 64) := by
  rw [UInt32.toNat_and]
  show x.toNat &&& 504 = 2 ^ 3 * (x.toNat / 2 ^ 3 % 2 ^ 6)
  apply Nat.eq_of_testBit_eq
  intro i
  rw [Nat.testBit_and, testBit_504, Nat.testBit_two_pow_mul, Nat.testBit_mod_two_pow,
    Nat.testBit_div_two_pow]
  by_cases h : 3 ≤ i
  · rw [Nat.sub_add_cancel h, decide_eq_true h, Bool.true_and, Bool.true_and, Bool.and_comm]
  · rw [decide_eq_false h, Bool.false_and, Bool.false_and, Bool.and_false]

theorem and_504_eq_iff (x : UInt32) : x &&& 504 = 448 ↔ x.toNat / 8 % 64 = 56 := by
  rw [← UInt32.toNat_inj, toNat_and_504]
  show 8 * (x.toNat / 8 % 64) = 448 ↔ _
  omega

/-- Each zero byte brings the unfinished block nearer to 56 bytes. -/
theorem zeros_to_go_lt {context after : Sha1Ctx} (hopen : context.count0 &&& 504 ≠ 448)
    (hupdate : sha1Update context (oneByte 0) = .ok after) :
    (120 - after.count0.toNat / 8 % 64) % 64 < (120 - context.count0.toNat / 8 % 64) % 64 := by
  have hcount0 : after.count0.toNat = (context.count0.toNat + 8) % 2 ^ 32 := by
    rw [sha1Update_count0 hupdate, UInt32.toNat_add]
    rfl
  have hrest : context.count0.toNat / 8 % 64 ≠ 56 := fun h => hopen ((and_504_eq_iff _).mpr h)
  omega

/-- The loop of `SHA1Final` that appends zero bytes. -/
def zeroLoop (context : Sha1Ctx) : Exec Sha1Ctx :=
  if hopen : context.count0 &&& 504 ≠ 448 then
    match hupdate : sha1Update context (oneByte 0) with
    | .error fault => .error fault
    | .ok after =>
        have := zeros_to_go_lt hopen hupdate
        zeroLoop after
  else .ok context
termination_by (120 - context.count0.toNat / 8 % 64) % 64

theorem finalcount_lt (context : Sha1Ctx) : (List.ofFn fun i : Fin 8 =>
    ((if i.val ≥ 4 then context.count0 else context.count1) >>>
      UInt32.ofNat ((3 - (i.val &&& 3)) * 8) &&& 255).toUInt8).length < 2 ^ 32 := by
  rw [List.length_ofFn]
  decide

def finalcount (context : Sha1Ctx) : Data :=
  ⟨List.ofFn fun i : Fin 8 => ((if i.val ≥ 4 then context.count0 else context.count1) >>>
    UInt32.ofNat ((3 - (i.val &&& 3)) * 8) &&& 255).toUInt8, finalcount_lt context⟩

theorem shiftRight_two_lt (i : Fin 20) : i.val >>> 2 < 5 := by
  rw [Nat.shiftRight_eq_div_pow]
  omega

/-- The loop of `SHA1Final` that writes the digest. -/
def stateDigest (state : Vector UInt32 5) : CharArray 20 :=
  ⟨List.ofFn fun i : Fin 20 => (state.get ⟨i.val >>> 2, shiftRight_two_lt i⟩ >>>
    UInt32.ofNat ((3 - (i.val &&& 3)) * 8) &&& 255).toUInt8, List.length_ofFn⟩

/-- The context after `memset(context, '\0', sizeof(*context))`. -/
def wiped : Sha1Ctx := ⟨#v[0, 0, 0, 0, 0], 0, 0, List.replicate 64 (some 0)⟩

def sha1Final (context : Sha1Ctx) : Exec (CharArray 20 × Sha1Ctx) := do
  let finalcount := finalcount context
  let context ← sha1Update context (oneByte 0x80)
  let context ← zeroLoop context
  let context ← sha1Update context finalcount
  return (stateDigest context.state, wiped)

/-- The loop of `SHA1`, with `n` iterations to go. -/
def sha1Loop (str : Bytes) : (n ii : Nat) → Sha1Ctx → Exec Sha1Ctx
  | 0, _, ctx => .ok ctx
  | n + 1, ii, ctx => do
      let byte ← readByte str ii
      let ctx ← sha1Update ctx (oneByte byte)
      sha1Loop str n (ii + 1) ctx

def sha1 (str : Bytes) (len : UInt32) : Exec (CharArray 20) := do
  let ctx ← sha1Loop str len.toNat 0 sha1Init
  let (hashOut, _) ← sha1Final ctx
  return hashOut

end Cdht.Sha1
