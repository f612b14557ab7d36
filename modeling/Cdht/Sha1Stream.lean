/-
  Cdht/Sha1Stream.lean
  ====================
  **What a SHA-1 context knows about its message.**

  `Represents message context` says that a context has taken in exactly `message`:
  the chaining value over its whole blocks, the bytes after them, and its length in
  bits modulo 2^64.  `SHA1Update` keeps it, unless the 32-bit sum `j + len` wraps; then
  the bounds check of the source passes by mistake and `memcpy` leaves the buffer.
  `SHA1Final` appends the padding of the standard.  Together, any sequence of updates
  gives the digest of the concatenation, and `SHA1` the digest of its argument.
-/
import Cdht.Sha1Rounds

namespace Cdht.Sha1Stream

open Cdht.Memory Cdht.ByteOrder Cdht.BlockHash Cdht.Sha1 Cdht.Sha1Rounds
open Cdht.Sha1Standard (Registers compress initial beBytes padding zeroCount)

/-- A context that has taken in `message`. -/
structure Represents (message : Bytes) (context : Sha1Ctx) : Prop where
  state : registers context.state = chain 64 compress initial message
  count : 2 ^ 32 * context.count1.toNat + context.count0.toNat = 8 * message.length % 2 ^ 64
  buffer : ∃ room : Block, context.buffer = (pending 64 message).map some ++ room ∧
    message.length % 64 + room.length = 64

theorem represents_init : Represents [] sha1Init where
  state := rfl
  count := rfl
  buffer := ⟨malloc 64, rfl, rfl⟩

/-! ### The length -/

theorem Represents.toNat_count0 {message : Bytes} {context : Sha1Ctx}
    (h : Represents message context) : context.count0.toNat = 8 * message.length % 2 ^ 32 := by
  have hcount := h.count
  have hlow := context.count0.toNat_lt
  omega

/-- `j = (count[0] >> 3) & 63` is the number of bytes in the buffer. -/
theorem Represents.toNat_j {message : Bytes} {context : Sha1Ctx} (h : Represents message context) :
    ((context.count0 >>> 3) &&& 63).toNat = message.length % 64 := by
  have hmask : ∀ n : Nat, n &&& 63 = n % 64 := fun n => Nat.and_two_pow_sub_one_eq_mod n 6
  rw [UInt32.toNat_and, UInt32.toNat_shiftRight, h.toNat_count0]
  show (8 * message.length % 2 ^ 32) >>> 3 &&& 63 = _
  rw [Nat.shiftRight_eq_div_pow, hmask]
  omega

theorem toNat_len (data : Data) : data.len.toNat = data.val.length :=
  UInt32.toNat_ofNat_of_lt' data.property

/-- The two words are one counter: the carry of the source is the carry of the sum. -/
theorem count_countedBy (context : Sha1Ctx) (len : UInt32) :
    2 ^ 32 * (countedBy context len).count1.toNat + (countedBy context len).count0.toNat =
      (2 ^ 32 * context.count1.toNat + context.count0.toNat + 8 * len.toNat) % 2 ^ 64 := by
  have hlow := context.count0.toNat_lt
  have hhigh := context.count1.toNat_lt
  have hlen := len.toNat_lt
  have hbits : (len <<< 3).toNat = 8 * len.toNat % 2 ^ 32 := by
    rw [UInt32.toNat_shiftLeft, Nat.mul_comm]
    show len.toNat <<< 3 % 2 ^ 32 = _
    rw [Nat.shiftLeft_eq]
  have htop : (len >>> 29).toNat = len.toNat / 2 ^ 29 := by
    rw [UInt32.toNat_shiftRight]
    show len.toNat >>> 29 = _
    rw [Nat.shiftRight_eq_div_pow]
  simp only [countedBy]
  rw [UInt32.toNat_add, UInt32.toNat_add, hbits, htop]
  split
  · rename_i hcarry
    rw [UInt32.lt_iff_toNat_lt, UInt32.toNat_add, hbits] at hcarry
    have hone : (1 : UInt32).toNat = 1 := rfl
    rw [UInt32.toNat_add, hone]
    omega
  · rename_i hcarry
    rw [UInt32.lt_iff_toNat_lt, UInt32.toNat_add, hbits] at hcarry
    omega

theorem Represents.count_update {message : Bytes} {context : Sha1Ctx}
    (h : Represents message context) (data : Data) :
    2 ^ 32 * (countedBy context data.len).count1.toNat + (countedBy context data.len).count0.toNat =
      8 * (message ++ data.val).length % 2 ^ 64 := by
  rw [count_countedBy, h.count, toNat_len, List.length_append]
  omega

/-! ### The loop over whole blocks -/

theorem transformLoop_step {data : Data} {state : Vector UInt32 5} {i : UInt32}
    {block : CharArray 64} (hmore : i + 63 < data.len)
    (hread : readArray data.val i.toNat 64 = .ok block) :
    transformLoop data state i = transformLoop data (sha1Transform state block) (i + 64) := by
  rw [transformLoop, if_pos hmore]
  split
  · rename_i fault herror
    rw [hread] at herror
    cases herror
  · rename_i block' hblock
    rw [hread] at hblock
    cases hblock
    rfl

theorem transformLoop_done {data : Data} {state : Vector UInt32 5} {i : UInt32}
    (hdone : ¬ i + 63 < data.len) : transformLoop data state i = .ok (state, i) := by
  rw [transformLoop, if_neg hdone]

/-- The loop compresses the whole blocks of `data` from `i` on.  `i` and `j` together
    are a number of whole blocks, and `j` and the length do not wrap: hence neither
    does `i + 63`. -/
theorem transformLoop_spec (data : Data) {j : Nat} (hj : j < 64)
    (hfits : j + data.val.length < 2 ^ 32) (state : Vector UInt32 5) (i : UInt32)
    (haligned : (i.toNat + j) % 64 = 0) (hi : i.toNat ≤ data.val.length) :
    ∃ state' i', transformLoop data state i = .ok (state', i') ∧
      registers state' = chain 64 compress (registers state) (data.val.drop i.toNat) ∧
      data.val.drop i'.toNat = pending 64 (data.val.drop i.toNat) ∧
      i'.toNat ≤ data.val.length := by
  have hsum : (i + 63).toNat = i.toNat + 63 := by
    rw [UInt32.toNat_add]
    show (i.toNat + 63) % 2 ^ 32 = _
    omega
  by_cases hmore : i + 63 < data.len
  · have hroom : i.toNat + 64 ≤ data.val.length := by
      rw [UInt32.lt_iff_toNat_lt, hsum, toNat_len] at hmore
      omega
    have hnext : (i + 64).toNat = i.toNat + 64 := by
      rw [UInt32.toNat_add]
      show (i.toNat + 64) % 2 ^ 32 = _
      omega
    obtain ⟨state', i', hloop, hstate, hrest, hi'⟩ := transformLoop_spec data hj hfits
      (sha1Transform state ⟨slice data.val i.toNat 64, length_slice hroom⟩) (i + 64)
      (by omega) (by omega)
    have hsplit : data.val.drop i.toNat =
        slice data.val i.toNat 64 ++ data.val.drop (i + 64).toNat := by
      rw [hnext, slice, ← List.drop_drop, List.take_append_drop]
    refine ⟨state', i', ?_, ?_, ?_, hi'⟩
    · rw [transformLoop_step hmore (readArray_eq_ok hroom), hloop]
    · rw [hstate, registers_sha1Transform, hsplit,
        chain_block_append compress (by decide) (length_slice hroom)]
    · rw [hrest, hsplit, pending_block_append (by decide) (length_slice hroom)]
  · have hshort : (data.val.drop i.toNat).length < 64 := by
      rw [UInt32.lt_iff_toNat_lt, hsum, toNat_len] at hmore
      rw [List.length_drop]
      omega
    exact ⟨state, i, transformLoop_done hmore, (chain_of_lt 64 compress hshort _).symm,
      (pending_of_lt 64 hshort).symm, hi⟩
termination_by data.val.length - i.toNat

/-! ### `SHA1Update` -/

/-- A store behind the written front of the buffer. -/
theorem store_behind {bytes more : Bytes} {room : Block} {offset : Nat}
    (hoffset : offset = bytes.length) (hroom : more.length ≤ room.length) :
    store (bytes.map some ++ room) offset more =
      .ok ((bytes ++ more).map some ++ room.drop more.length) := by
  have hold : (room.take more.length).length = (more.map some).length := by
    rw [List.length_take, List.length_map]
    omega
  have hstore := writeAt_append (bytes.map some) _ (room.drop more.length) _ hold
  rw [List.append_assoc, List.take_append_drop, List.length_map, ← hoffset] at hstore
  rw [store, hstore, List.map_append]

theorem store_front {cells : Block} {more : Bytes} (hroom : more.length ≤ cells.length) :
    store cells 0 more = .ok (more.map some ++ cells.drop more.length) :=
  @store_behind [] more cells 0 rfl hroom

theorem loadBuffer_map_some {bytes : Bytes} (h : bytes.length = 64) :
    loadBuffer (bytes.map some) = .ok ⟨bytes, h⟩ := by
  have hload : load (filled bytes 0) 64 = .ok (bytes.take 64) := load_filled (Nat.le_of_eq h.symm)
  have hwhole : filled bytes 0 = bytes.map some := List.append_nil _
  have hslice : slice bytes 0 64 = bytes := by
    rw [slice, List.drop_zero, List.take_of_length_le (Nat.le_of_eq h)]
  rw [loadBuffer, ← hwhole, hload, ok_bind, List.take_of_length_le (Nat.le_of_eq h),
    readArray_eq_ok (by rw [h])]
  exact congrArg Except.ok (Subtype.ext hslice)

theorem readAt_drop {data : Data} {i : UInt32} (hi : i.toNat ≤ data.val.length) :
    readAt data.val i.toNat (data.len - i).toNat = .ok (data.val.drop i.toNat) := by
  have hle : i ≤ data.len := by
    rw [UInt32.le_iff_toNat_le, toNat_len]
    exact hi
  have hn : (data.len - i).toNat = data.val.length - i.toNat := by
    rw [UInt32.toNat_sub_of_le _ _ hle, toNat_len]
  rw [hn, readAt_eq_ok (by omega), slice, List.take_of_length_le]
  rw [List.length_drop]

/-- The pieces of one update: the bytes that complete the first block, and the rest. -/
theorem updateBlocks_of_fill {message : Bytes} (context : Sha1Ctx) (data : Data) {j : UInt32}
    (hj : j.toNat = message.length % 64)
    (hstate : registers context.state = chain 64 compress initial message) {room : Block}
    (hbuffer : context.buffer = (pending 64 message).map some ++ room)
    (hroom : message.length % 64 + room.length = 64)
    (hfits : message.length % 64 + data.val.length < 2 ^ 32)
    (hfill : 64 ≤ message.length % 64 + data.val.length) :
    ∃ state i, ∃ block : Bytes, updateBlocks context data j =
        .ok ({ context with state := state, buffer := block.map some }, i, 0) ∧
      block.length = 64 ∧
      registers state = chain 64 compress initial (message ++ data.val) ∧
      data.val.drop i.toNat = pending 64 (message ++ data.val) ∧
      i.toNat ≤ data.val.length := by
  have hpending : (pending 64 message).length = message.length % 64 := length_pending 64 message
  have hsum : (j + data.len).toNat = message.length % 64 + data.val.length := by
    rw [UInt32.toNat_add, hj, toNat_len, Nat.mod_eq_of_lt hfits]
  have hbranch : j + data.len > 63 := by
    rw [gt_iff_lt, UInt32.lt_iff_toNat_lt, hsum]
    show 63 < _
    omega
  have hi : (64 - j).toNat = 64 - message.length % 64 := by
    rw [UInt32.toNat_sub_of_le, hj]
    · rfl
    · rw [UInt32.le_iff_toNat_le, hj]
      show _ ≤ 64
      omega
  -- the first block: what was pending and the front of `data`
  have hfront : (data.val.take (64 - message.length % 64)).length = 64 - message.length % 64 := by
    rw [List.length_take]
    omega
  have hblock : (pending 64 message ++ data.val.take (64 - message.length % 64)).length = 64 := by
    rw [List.length_append, hpending, hfront]
    omega
  have hread : readAt data.val 0 (64 - j).toNat =
      .ok (data.val.take (64 - message.length % 64)) := by
    rw [hi, readAt_eq_ok (by omega), slice, List.drop_zero]
  have hstore : store context.buffer j.toNat (data.val.take (64 - message.length % 64)) =
      .ok ((pending 64 message ++ data.val.take (64 - message.length % 64)).map some) := by
    have hnone : room.drop (data.val.take (64 - message.length % 64)).length = [] := by
      apply List.drop_of_length_le
      omega
    rw [hbuffer, store_behind (by rw [hj, hpending]) (by omega), hnone, List.append_nil]
  obtain ⟨state, i, hloop, hchain, hrest, hle⟩ := transformLoop_spec data
    (Nat.mod_lt message.length (by decide)) hfits
    (sha1Transform context.state
      ⟨pending 64 message ++ data.val.take (64 - message.length % 64), hblock⟩) (64 - j)
    (by omega) (by omega)
  have hdata : pending 64 message ++ data.val =
      (pending 64 message ++ data.val.take (64 - message.length % 64)) ++
        data.val.drop (64 - j).toNat := by
    rw [hi, List.append_assoc, List.take_append_drop]
  refine ⟨state, i, _, ?_, hblock, ?_, ?_, hle⟩
  · rw [updateBlocks, if_pos hbranch]
    simp only [hread, ok_bind, hstore, loadBuffer_map_some hblock, hloop, pure_eq_ok]
  · rw [hchain, registers_sha1Transform, hstate, chain_append compress (by decide), hdata,
      chain_block_append compress (by decide) hblock]
  · rw [hrest, pending_append (by decide), hdata, pending_block_append (by decide) hblock]

/-- **`SHA1Update` appends its data to the message**, as long as `j + len` stays below
    2^32. -/
theorem Represents.update {message : Bytes} {context : Sha1Ctx} (h : Represents message context)
    (data : Data) (hfits : message.length % 64 + data.val.length < 2 ^ 32) :
    ∃ context', sha1Update context data = .ok context' ∧
      Represents (message ++ data.val) context' := by
  obtain ⟨room, hbuffer, hroom⟩ := h.buffer
  have hpending : (pending 64 message).length = message.length % 64 := length_pending 64 message
  have hj := h.toNat_j
  have hcount := h.count_update data
  by_cases hfill : 64 ≤ message.length % 64 + data.val.length
  · obtain ⟨state, i, block, hblocks, hblock, hstate, hrest, hi⟩ := updateBlocks_of_fill
      (countedBy context data.len) data hj h.state hbuffer hroom hfits hfill
    have hlength : (data.val.drop i.toNat).length = (message ++ data.val).length % 64 := by
      rw [hrest, length_pending]
    have hstore : store (block.map some) 0 (data.val.drop i.toNat) =
        .ok ((data.val.drop i.toNat).map some ++
          (block.map some).drop (data.val.drop i.toNat).length) :=
      store_front (by rw [hlength, List.length_map, hblock]; omega)
    refine ⟨{ countedBy context data.len with
      state := state
      buffer := (data.val.drop i.toNat).map some ++
        (block.map some).drop (data.val.drop i.toNat).length }, ?_, hstate, hcount,
      (block.map some).drop (data.val.drop i.toNat).length, ?_, ?_⟩
    · rw [sha1Update, hblocks]
      simp only [ok_bind, readAt_drop hi]
      show store (block.map some) 0 _ >>= _ = _
      rw [hstore]
      rfl
    · rw [← hrest]
    · rw [List.length_drop, List.length_map, hblock, hlength]
      omega
  · have hsum : (((context.count0 >>> 3) &&& 63) + data.len).toNat =
        message.length % 64 + data.val.length := by
      rw [UInt32.toNat_add, hj, toNat_len, Nat.mod_eq_of_lt hfits]
    have hbranch : ¬ ((context.count0 >>> 3) &&& 63) + data.len > 63 := by
      rw [gt_iff_lt, UInt32.lt_iff_toNat_lt, hsum]
      show ¬ 63 < _
      omega
    have hshort : (pending 64 message ++ data.val).length < 64 := by
      rw [List.length_append, hpending]
      omega
    have hstore : store context.buffer ((context.count0 >>> 3) &&& 63).toNat data.val =
        .ok ((pending 64 message ++ data.val).map some ++ room.drop data.val.length) := by
      rw [hbuffer]
      exact store_behind (by rw [hj, hpending]) (by omega)
    refine ⟨{ countedBy context data.len with
      buffer := (pending 64 message ++ data.val).map some ++ room.drop data.val.length }, ?_, ?_,
      hcount, room.drop data.val.length, ?_, ?_⟩
    · have hread : readAt data.val (0 : UInt32).toNat (data.len - 0).toNat = .ok data.val :=
        readAt_drop (Nat.zero_le _)
      rw [sha1Update, updateBlocks, if_neg hbranch]
      simp only [pure_eq_ok, ok_bind, hread]
      show store context.buffer _ data.val >>= _ = _
      rw [hstore]
      rfl
    · rw [chain_append compress (by decide), chain_of_lt 64 compress hshort]
      exact h.state
    · rw [pending_append (by decide), pending_of_lt 64 hshort]
    · rw [List.length_append, List.length_drop]
      omega

/-- A sum `j + len` that wraps looks like a short update, and its copy does not fit the
    buffer. -/
theorem Represents.update_overflow {message : Bytes} {context : Sha1Ctx}
    (h : Represents message context) (data : Data)
    (hwraps : 2 ^ 32 ≤ message.length % 64 + data.val.length) :
    sha1Update context data = .error (.outOfBounds 64) := by
  obtain ⟨room, hbuffer, hroom⟩ := h.buffer
  have hj := h.toNat_j
  have hlen := data.property
  have hbranch : ¬ ((context.count0 >>> 3) &&& 63) + data.len > 63 := by
    rw [gt_iff_lt, UInt32.lt_iff_toNat_lt, UInt32.toNat_add, hj, toNat_len]
    show ¬ 63 < _
    omega
  have hread : readAt data.val (0 : UInt32).toNat (data.len - 0).toNat = .ok data.val :=
    readAt_drop (Nat.zero_le _)
  have hlength : context.buffer.length = 64 := by
    rw [hbuffer, List.length_append, List.length_map, length_pending, hroom]
  rw [sha1Update, updateBlocks, if_neg hbranch]
  simp only [pure_eq_ok, ok_bind, hread]
  show store context.buffer _ data.val >>= _ = _
  rw [store, writeAt, if_neg (by rw [List.length_map, hlength, hj]; omega), hlength, hj,
    Nat.max_eq_right (by omega)]
  rfl

/-! ### Padding -/

theorem Represents.update_byte {message : Bytes} {context : Sha1Ctx}
    (h : Represents message context) (byte : UInt8) :
    ∃ context', sha1Update context (oneByte byte) = .ok context' ∧
      Represents (message ++ [byte]) context' := by
  apply h.update (oneByte byte)
  show message.length % 64 + 1 < 2 ^ 32
  omega

/-- The loop of `SHA1Final` ends, and has then appended as many zeros as are missing to
    56 bytes in the last block. -/
theorem Represents.zeroLoop {message : Bytes} {context : Sha1Ctx}
    (h : Represents message context) :
    ∃ context', zeroLoop context = .ok context' ∧
      Represents (message ++ List.replicate ((120 - message.length % 64) % 64) 0) context' := by
  have hcount0 := h.toNat_count0
  by_cases hopen : context.count0 &&& 504 ≠ 448
  · have hrest : context.count0.toNat / 8 % 64 ≠ 56 := fun h => hopen ((and_504_eq_iff _).mpr h)
    obtain ⟨next, hupdate, hnext⟩ := h.update_byte 0
    obtain ⟨context', hloop, hrep⟩ := hnext.zeroLoop
    have hzeros : (120 - message.length % 64) % 64 =
        (120 - (message ++ [(0 : UInt8)]).length % 64) % 64 + 1 := by
      rw [List.length_append, List.length_singleton]
      omega
    refine ⟨context', ?_, ?_⟩
    · rw [Sha1.zeroLoop, dif_pos hopen]
      split
      · rename_i fault herror
        rw [hupdate] at herror
        cases herror
      · rename_i after hafter
        rw [hupdate] at hafter
        cases hafter
        exact hloop
    · rw [List.append_assoc] at hrep
      rw [hzeros, List.replicate_succ]
      exact hrep
  · have hfull : context.count0.toNat / 8 % 64 = 56 :=
      (and_504_eq_iff _).mp (Classical.not_not.mp hopen)
    have hnone : (120 - message.length % 64) % 64 = 0 := by omega
    refine ⟨context, ?_, ?_⟩
    · rw [Sha1.zeroLoop, dif_neg hopen]
    · rw [hnone, List.replicate_zero, List.append_nil]
      exact h
termination_by (120 - message.length % 64) % 64
decreasing_by
  rw [List.length_append, List.length_singleton]
  omega

/-! ### Bytes of words -/

theorem toUInt8_shift (x : UInt32) (k : Nat) (hk : k < 32) :
    (x >>> UInt32.ofNat k &&& 255).toUInt8 = UInt8.ofNat (x.toNat / 2 ^ k % 256) := by
  have hmask : ∀ n : Nat, n &&& 255 = n % 256 := fun n => Nat.and_two_pow_sub_one_eq_mod n 8
  have hshift : (UInt32.ofNat k).toNat = k := UInt32.toNat_ofNat_of_lt' (Nat.lt_trans hk (by decide))
  apply UInt8.toNat_inj.mp
  rw [UInt32.toNat_toUInt8, UInt32.toNat_and, UInt32.toNat_shiftRight, hshift,
    Nat.mod_eq_of_lt hk, Nat.shiftRight_eq_div_pow]
  show (x.toNat / 2 ^ k &&& 255) % 2 ^ 8 = _
  rw [hmask, UInt8.toNat_ofNat']

theorem beBytes_four (x : UInt32) : beBytes 4 x.toNat =
    [UInt8.ofNat (x.toNat / 2 ^ 24 % 256), UInt8.ofNat (x.toNat / 2 ^ 16 % 256),
      UInt8.ofNat (x.toNat / 2 ^ 8 % 256), UInt8.ofNat (x.toNat / 2 ^ 0 % 256)] := by
  simp only [beBytes, leBytes, Nat.div_div_eq_div_mul, List.reverse_cons, List.reverse_nil,
    List.nil_append, List.cons_append]
  norm_num

theorem beBytes_eight (high low : UInt32) :
    beBytes 8 (2 ^ 32 * high.toNat + low.toNat) = beBytes 4 high.toNat ++ beBytes 4 low.toNat := by
  have hlow := low.toNat_lt
  have hmod : (2 ^ 32 * high.toNat + low.toNat) % 256 ^ 4 = low.toNat := by omega
  have hdiv : (2 ^ 32 * high.toNat + low.toNat) / 256 ^ 4 = high.toNat := by omega
  rw [beBytes, leBytes_add 4 4, hdiv, ← leBytes_mod 4 (2 ^ 32 * high.toNat + low.toNat), hmod,
    List.reverse_append]
  rfl

/-- The bytes that a loop of `SHA1Final` takes out of a word. -/
def shiftedBytes (x : UInt32) : Bytes :=
  [(x >>> 24 &&& 255).toUInt8, (x >>> 16 &&& 255).toUInt8, (x >>> 8 &&& 255).toUInt8,
    (x >>> 0 &&& 255).toUInt8]

theorem shiftedBytes_eq (x : UInt32) : shiftedBytes x = beBytes 4 x.toNat := by
  rw [beBytes_four, ← toUInt8_shift x 24 (by decide), ← toUInt8_shift x 16 (by decide),
    ← toUInt8_shift x 8 (by decide), ← toUInt8_shift x 0 (by decide)]
  rfl

theorem finalcount_eq {message : Bytes} {context : Sha1Ctx} (h : Represents message context) :
    (finalcount context).val = beBytes 8 (8 * message.length) := by
  have hbytes : (finalcount context).val =
      shiftedBytes context.count1 ++ shiftedBytes context.count0 := rfl
  rw [hbytes, shiftedBytes_eq, shiftedBytes_eq, ← beBytes_eight, h.count, beBytes, beBytes]
  exact congrArg List.reverse (leBytes_mod 8 _)

theorem stateDigest_eq (state : Vector UInt32 5) :
    stateDigest state = Sha1Standard.digest (registers state) := by
  apply Subtype.ext
  have hbytes : (stateDigest state).val = shiftedBytes state[0] ++ shiftedBytes state[1] ++
      shiftedBytes state[2] ++ shiftedBytes state[3] ++ shiftedBytes state[4] := rfl
  rw [hbytes]
  simp only [shiftedBytes_eq]
  rfl

/-! ### The digest -/

/-- **`SHA1Final` gives the digest of the standard**, for a message of any length. -/
theorem Represents.final {message : Bytes} {context : Sha1Ctx} (h : Represents message context) :
    sha1Final context = .ok (Sha1Standard.sha1 message, wiped) := by
  obtain ⟨marked, hmark, hmarked⟩ := h.update_byte 0x80
  obtain ⟨padded, hzeros, hpadded⟩ := hmarked.zeroLoop
  have hfinalcount := finalcount_eq h
  obtain ⟨full, hfull, hdone⟩ := hpadded.update (finalcount context) (by
    rw [hfinalcount, Sha1Standard.length_beBytes]
    omega)
  have hmessage : message ++ [0x80] ++
      List.replicate ((120 - (message ++ [(0x80 : UInt8)]).length % 64) % 64) 0 ++
        (finalcount context).val = message ++ padding message.length := by
    have hcount : (120 - (message ++ [(0x80 : UInt8)]).length % 64) % 64 =
        zeroCount message.length := by
      rw [List.length_append, List.length_singleton, zeroCount]
      omega
    rw [hcount, hfinalcount, padding]
    simp only [List.append_assoc]
  rw [hmessage] at hdone
  rw [sha1Final, hmark]
  simp only [ok_bind, hzeros, hfull, pure_eq_ok]
  rw [stateDigest_eq, hdone.state]
  rfl

/-! ### Messages in pieces -/

/-- `SHA1Update` on one piece after another. -/
def sha1Updates (context : Sha1Ctx) : List Data → Exec Sha1Ctx
  | [] => .ok context
  | piece :: rest => do
      let context ← sha1Update context piece
      sha1Updates context rest

/-- The message that the pieces make up. -/
def joined (pieces : List Data) : Bytes := pieces.flatMap Subtype.val

/-- No update of `pieces` after a message of `length` bytes makes `j + len` wrap. -/
def SumsFit (length : Nat) : List Data → Prop
  | [] => True
  | piece :: rest =>
      length % 64 + piece.val.length < 2 ^ 32 ∧ SumsFit (length + piece.val.length) rest

def decideSumsFit : ∀ (length : Nat) (pieces : List Data), Decidable (SumsFit length pieces)
  | _, [] => .isTrue trivial
  | length, piece :: rest =>
      have := decideSumsFit (length + piece.val.length) rest
      inferInstanceAs (Decidable (_ ∧ _))

instance (length : Nat) (pieces : List Data) : Decidable (SumsFit length pieces) :=
  decideSumsFit length pieces

theorem Represents.updates {message : Bytes} {context : Sha1Ctx} (h : Represents message context)
    (pieces : List Data) :
    if SumsFit message.length pieces then
      ∃ context', sha1Updates context pieces = .ok context' ∧
        Represents (message ++ joined pieces) context'
    else sha1Updates context pieces = .error (.outOfBounds 64) := by
  induction pieces generalizing message context with
  | nil =>
    rw [if_pos (show SumsFit message.length [] from trivial)]
    refine ⟨context, rfl, ?_⟩
    rw [joined, List.flatMap_nil, List.append_nil]
    exact h
  | cons piece rest ih =>
    by_cases hfits : message.length % 64 + piece.val.length < 2 ^ 32
    · obtain ⟨next, hupdate, hnext⟩ := h.update piece hfits
      have hrest := ih hnext
      rw [List.length_append] at hrest
      rw [joined, List.flatMap_cons, ← List.append_assoc, sha1Updates, hupdate]
      by_cases hsums : SumsFit (message.length + piece.val.length) rest
      · rw [if_pos hsums] at hrest
        rw [if_pos (show SumsFit message.length (piece :: rest) from ⟨hfits, hsums⟩)]
        exact hrest
      · rw [if_neg hsums] at hrest
        rw [if_neg (show ¬ SumsFit message.length (piece :: rest) from fun h => hsums h.2)]
        exact hrest
    · rw [if_neg (show ¬ SumsFit message.length (piece :: rest) from fun h => hfits h.1),
        sha1Updates, h.update_overflow piece (by omega)]
      rfl

/-- **How a message is cut into updates does not matter**: the digest is that of the
    whole message, unless an update begins with bytes in the buffer and is so long that
    `j + len` wraps; then it writes outside the buffer. -/
theorem sha1Updates_final (pieces : List Data) :
    (do let context ← sha1Updates sha1Init pieces
        sha1Final context) =
      if SumsFit 0 pieces then .ok (Sha1Standard.sha1 (joined pieces), wiped)
      else .error (.outOfBounds 64) := by
  have hupdates := represents_init.updates pieces
  by_cases hsums : SumsFit 0 pieces
  · rw [if_pos hsums]
    rw [if_pos (show SumsFit ([] : Bytes).length pieces from hsums)] at hupdates
    obtain ⟨context, hrun, hrep⟩ := hupdates
    rw [hrun, ok_bind, hrep.final, List.nil_append]
  · rw [if_neg hsums]
    rw [if_neg (show ¬ SumsFit ([] : Bytes).length pieces from hsums)] at hupdates
    rw [hupdates]
    rfl

/-! ### `SHA1` -/

theorem Represents.loop {message : Bytes} {context : Sha1Ctx} (h : Represents message context)
    {str : Bytes} (n ii : Nat) (hin : ii + n ≤ str.length) :
    ∃ context', sha1Loop str n ii context = .ok context' ∧
      Represents (message ++ slice str ii n) context' := by
  induction n generalizing message context ii with
  | zero =>
    refine ⟨context, rfl, ?_⟩
    rw [slice, List.take_zero, List.append_nil]
    exact h
  | succ n ih =>
    have hbyte : ii < str.length := by omega
    obtain ⟨next, hupdate, hnext⟩ := h.update_byte str[ii]
    obtain ⟨context', hloop, hrep⟩ := ih hnext (ii + 1) (by omega)
    refine ⟨context', ?_, ?_⟩
    · rw [sha1Loop, readByte_eq_ok hbyte, ok_bind, hupdate, ok_bind, hloop]
    · rw [List.append_assoc, ← slice_one hbyte, slice_append_slice, Nat.add_comm 1 n] at hrep
      exact hrep

theorem Represents.loop_outside {message : Bytes} {context : Sha1Ctx}
    (h : Represents message context) {str : Bytes} {n ii : Nat} (hii : ii ≤ str.length)
    (hout : str.length < ii + n) : sha1Loop str n ii context = .error (.outOfBounds str.length) := by
  induction n generalizing message context ii with
  | zero => omega
  | succ n ih =>
    by_cases hbyte : ii < str.length
    · obtain ⟨next, hupdate, hnext⟩ := h.update_byte str[ii]
      rw [sha1Loop, readByte_eq_ok hbyte, ok_bind, hupdate, ok_bind]
      exact ih hnext (by omega) (by omega)
    · obtain rfl : ii = str.length := by omega
      rw [sha1Loop, readByte, dif_neg hbyte]
      rfl

theorem sha1_eq_ok {str : Bytes} {len : UInt32} (hin : len.toNat ≤ str.length) :
    sha1 str len = .ok (Sha1Standard.sha1 (str.take len.toNat)) := by
  obtain ⟨context, hloop, hrep⟩ := represents_init.loop len.toNat 0
    (by omega : 0 + len.toNat ≤ str.length)
  rw [sha1, hloop, ok_bind, hrep.final, List.nil_append, slice, List.drop_zero]
  rfl

/-- **`SHA1` computes SHA-1**: for every string and every length within it, the digest
    that the standard defines; no byte of the context is read before it is written and
    every copy stays inside it. -/
theorem sha1_eq_standard (str : Bytes) (len : UInt32) :
    sha1 str len =
      if len.toNat ≤ str.length then .ok (Sha1Standard.sha1 (str.take len.toNat))
      else .error (.outOfBounds str.length) := by
  by_cases hin : len.toNat ≤ str.length
  · rw [if_pos hin, sha1_eq_ok hin]
  · rw [if_neg hin, sha1, represents_init.loop_outside (Nat.zero_le _) (by omega)]
    rfl

end Cdht.Sha1Stream
