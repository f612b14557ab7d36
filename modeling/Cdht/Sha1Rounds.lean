/-
  Cdht/Sha1Rounds.lean
  ====================
  **The unrolled rounds compute the compression of the standard.**

  The source and the standard differ in three ways.  The source swaps the bytes of
  the words it finds in memory, mixes with fewer operations, and keeps sixteen words
  of the schedule, each overwritten when its successor sixteen rounds later is due
  (`Holds`).  And the standard moves the five registers in each round, whereas the
  source lets the variables stay and rotates their roles (`roles`, `seen`).  One
  round of the source is then one round of the standard (`seen_roundAt`), and so are
  eighty (`registers_sha1Transform`).
-/
import Cdht.Sha1
import Cdht.Sha1Standard
import Mathlib.Tactic.IntervalCases

namespace Cdht.Sha1Rounds

open Cdht.Memory Cdht.ByteOrder Cdht.Sha1
open Cdht.Sha1Standard (Registers rotl mix constant blockWord schedule scheduleWord)

/-! ### Words -/

theorem swap_append (b0 b1 b2 b3 : BitVec 8) :
    ((b3 ++ b2 ++ b1 ++ b0 : BitVec 32).rotateLeft 24 &&& 0xFF00FF00#32) |||
      ((b3 ++ b2 ++ b1 ++ b0 : BitVec 32).rotateLeft 8 &&& 0x00FF00FF#32) =
        b0 ++ b1 ++ b2 ++ b3 := by
  apply BitVec.eq_of_getLsbD_eq
  intro i hi
  simp only [BitVec.getLsbD_or, BitVec.getLsbD_and, BitVec.getLsbD_append,
    BitVec.getLsbD_rotateLeft]
  interval_cases i <;> simp

theorem toNat_append (b0 b1 b2 b3 : BitVec 8) :
    (b3 ++ b2 ++ b1 ++ b0 : BitVec 32).toNat =
      b0.toNat + 256 * (b1.toNat + 256 * (b2.toNat + 256 * b3.toNat)) := by
  simp only [BitVec.toNat_append]
  rw [← Nat.shiftLeft_add_eq_or_of_lt b2.isLt, ← Nat.shiftLeft_add_eq_or_of_lt b1.isLt,
    ← Nat.shiftLeft_add_eq_or_of_lt b0.isLt]
  simp only [Nat.shiftLeft_eq]
  omega

theorem ofNat_leValue (b0 b1 b2 b3 : UInt8) :
    UInt32.ofNat (leValue [b0, b1, b2, b3]) =
      ⟨b3.toBitVec ++ b2.toBitVec ++ b1.toBitVec ++ b0.toBitVec⟩ := by
  apply UInt32.toNat_inj.mp
  have hlt : leValue [b0, b1, b2, b3] < 256 ^ 4 := leValue_lt [b0, b1, b2, b3]
  rw [UInt32.toNat_ofNat_of_lt' (Nat.lt_of_lt_of_eq hlt (by decide))]
  simp only [leValue_cons, leValue_nil, Nat.mul_zero, Nat.add_zero]
  exact (toNat_append _ _ _ _).symm

/-- `blk0` turns the word in memory into the word of the standard. -/
theorem swap_word {bytes : Bytes} (h : bytes.length = 4) :
    (rol (UInt32.ofNat (leValue bytes)) 24 &&& 0xFF00FF00) |||
      (rol (UInt32.ofNat (leValue bytes)) 8 &&& 0x00FF00FF) = UInt32.ofNat (beValue bytes) := by
  match bytes, h with
  | [b0, b1, b2, b3], _ =>
    rw [beValue]
    simp only [List.reverse_cons, List.reverse_nil, List.nil_append, List.cons_append]
    rw [ofNat_leValue, ofNat_leValue]
    exact congrArg UInt32.ofBitVec (swap_append _ _ _ _)

theorem choose_eq (w x y : UInt32) : (w &&& (x ^^^ y)) ^^^ y = (w &&& x) ||| (~~~w &&& y) := by
  have hbits : ∀ p q r : Bool, ((p && (q ^^ r)) ^^ r) = ((p && q) || (!p && r)) := by decide
  apply UInt32.toBitVec_inj.mp
  apply BitVec.eq_of_getLsbD_eq
  intro i hi
  simp only [UInt32.toBitVec_xor, UInt32.toBitVec_and, UInt32.toBitVec_or, UInt32.toBitVec_not,
    BitVec.getLsbD_xor, BitVec.getLsbD_and, BitVec.getLsbD_or, BitVec.getLsbD_not, hi,
    decide_true, Bool.true_and, hbits]

theorem majority_eq (w x y : UInt32) :
    ((w ||| x) &&& y) ||| (w &&& x) = (w &&& x) ||| (w &&& y) ||| (x &&& y) := by
  have hbits : ∀ p q r : Bool, (((p || q) && r) || (p && q)) = ((p && q) || (p && r) || (q && r)) := by
    decide
  apply UInt32.toBitVec_inj.mp
  apply BitVec.eq_of_getLsbD_eq
  intro i hi
  simp only [UInt32.toBitVec_and, UInt32.toBitVec_or, BitVec.getLsbD_and, BitVec.getLsbD_or, hbits]

/-! ### The unrolled list as a rule -/

/-- Which variable plays which part in a round. -/
structure Roles where
  v : Var
  w : Var
  x : Var
  y : Var
  z : Var

/-- The roles in the round `t`: from one round to the next they move by one place. -/
def roles : Nat → Roles
  | 0 => ⟨.a, .b, .c, .d, .e⟩
  | t + 1 => ⟨(roles t).z, (roles t).v, (roles t).w, (roles t).x, (roles t).y⟩

/-- The schedule word of the round `t`, and the schedule after it. -/
def expandAt (t : Nat) (block : Words) : UInt32 × Words :=
  if t < 16 then blk0 block (slot t) else blk block t

def mixAt (t : Nat) (w x y : UInt32) : UInt32 :=
  if t < 20 then (w &&& (x ^^^ y)) ^^^ y
  else if t < 40 then w ^^^ x ^^^ y
  else if t < 60 then ((w ||| x) &&& y) ||| (w &&& x)
  else w ^^^ x ^^^ y

def roundAt (t : Nat) : Vars → Vars :=
  roundWith (mixAt t) (constant t) (expandAt t) (roles t).v (roles t).w (roles t).x (roles t).y
    (roles t).z

theorem transformRounds_eq : transformRounds = (List.range 80).map roundAt := rfl

theorem mixAt_eq (t : Nat) (w x y : UInt32) : mixAt t w x y = mix t w x y := by
  rw [mixAt, mix, choose_eq, majority_eq]

/-! ### One round -/

/-- The registers of the standard, found under the roles. -/
def seen (roles : Roles) (vars : Vars) : Registers :=
  ⟨vars.get roles.v, vars.get roles.w, vars.get roles.x, vars.get roles.y, vars.get roles.z⟩

/-- Five rounds bring every variable back to its role. -/
theorem roles_cases (t : Nat) :
    roles t = ⟨.a, .b, .c, .d, .e⟩ ∨ roles t = ⟨.e, .a, .b, .c, .d⟩ ∨
      roles t = ⟨.d, .e, .a, .b, .c⟩ ∨ roles t = ⟨.c, .d, .e, .a, .b⟩ ∨
      roles t = ⟨.b, .c, .d, .e, .a⟩ := by
  induction t with
  | zero => exact .inl rfl
  | succ t ih =>
    rw [roles]
    rcases ih with h | h | h | h | h <;> simp [h]

theorem block_roundAt (t : Nat) (vars : Vars) :
    (roundAt t vars).block = (expandAt t vars.block).2 := by
  rw [roundAt]
  rcases roles_cases t with h | h | h | h | h <;> rw [h] <;> rfl

theorem seen_roundAt (t : Nat) (vars : Vars) :
    seen (roles (t + 1)) (roundAt t vars) =
      Sha1Standard.round t (expandAt t vars.block).1 (seen (roles t) vars) := by
  -- the sums are the same up to the order of their terms
  have hsum : ∀ z f word k v : UInt32, z + (f + word + k + v) = v + f + z + word + k := by
    intro z f word k v
    ac_rfl
  rw [roundAt, roles]
  rcases roles_cases t with h | h | h | h | h <;>
    simp only [h, seen, roundWith, Vars.get, Vars.set, mixAt_eq, hsum, Sha1Standard.round] <;> rfl

/-! ### The circular schedule -/

theorem slot_val (i : Nat) : (slot i).val = i % 16 := Nat.and_two_pow_sub_one_eq_mod i 4

theorem slot_eq {i j : Nat} (h : i % 16 = j % 16) : slot i = slot j := by
  apply Fin.ext
  rw [slot_val, slot_val, h]

theorem get_set_self (block : Words) (i : Fin 16) (word : UInt32) :
    (block.set i.val word i.isLt).get i = word :=
  Vector.getElem_set_self i.isLt

theorem get_set_of_ne (block : Words) {i j : Fin 16} (h : i ≠ j) (word : UInt32) :
    (block.set i.val word i.isLt).get j = block.get j :=
  Vector.getElem_set_ne i.isLt j.isLt (Fin.val_ne_of_ne h)

/-- What the sixteen words hold before the round `t`: the last sixteen words of the
    schedule, and where none has come yet, the word of the block as it was in memory. -/
structure Holds (buffer : CharArray 64) (t : Nat) (block : Words) : Prop where
  expanded : ∀ s, s < t → t ≤ s + 16 → block[slot s] = scheduleWord buffer.val s
  untouched : ∀ s : Fin 16, t ≤ s → block[s] = (blockWords buffer)[s]

theorem holds_blockWords (buffer : CharArray 64) : Holds buffer 0 (blockWords buffer) :=
  ⟨fun s hs => absurd hs (Nat.not_lt_zero s), fun _ _ => rfl⟩

/-- Storing the next word of the schedule in its slot keeps the invariant. -/
theorem Holds.set {buffer : CharArray 64} {t : Nat} {block : Words} (h : Holds buffer t block) :
    Holds buffer (t + 1) (block.set (slot t) (scheduleWord buffer.val t)) := by
  constructor
  · intro s hs hrecent
    rcases Nat.lt_succ_iff_lt_or_eq.mp hs with hlt | rfl
    · have hne : slot t ≠ slot s := by
        intro heq
        have hval : t % 16 = s % 16 := by rw [← slot_val, ← slot_val, heq]
        omega
      exact (get_set_of_ne block hne _).trans (h.expanded s hlt (by omega))
    · exact get_set_self block (slot s) _
  · intro s hs
    have hne : slot t ≠ s := by
      intro heq
      have hval : t % 16 = s.val := by rw [← slot_val, heq]
      omega
    exact (get_set_of_ne block hne _).trans (h.untouched s (by omega))

theorem Holds.blk0_eq {buffer : CharArray 64} {t : Nat} {block : Words} (h : Holds buffer t block)
    (ht : t < 16) : (blk0 block (slot t)).1 = scheduleWord buffer.val t := by
  have hslot : (slot t).val = t := by rw [slot_val, Nat.mod_eq_of_lt ht]
  have hword : block[slot t] = UInt32.ofNat (leValue (slice buffer.val (4 * t) 4)) := by
    rw [h.untouched (slot t) (Nat.le_of_eq hslot.symm), blockWords]
    simp [hslot]
  have hfour : (slice buffer.val (4 * t) 4).length = 4 :=
    length_slice (by rw [buffer.property]; omega)
  rw [Sha1Standard.scheduleWord_of_lt _ ht, blockWord, ← swap_word hfour, ← hword]
  rfl

theorem Holds.blk_eq {buffer : CharArray 64} {t : Nat} {block : Words} (h : Holds buffer t block)
    (ht : 16 ≤ t) : (blk block t).1 = scheduleWord buffer.val t := by
  have hread : ∀ s k, s < t → t ≤ s + 16 → k % 16 = s % 16 →
      block[slot k] = scheduleWord buffer.val s := by
    intro s k hs hrecent hk
    simp only [slot_eq hk]
    exact h.expanded s hs hrecent
  rw [blk, Sha1Standard.scheduleWord_of_le _ ht, hread (t - 3) (t + 13) (by omega) (by omega)
    (by omega), hread (t - 8) (t + 8) (by omega) (by omega) (by omega),
    hread (t - 14) (t + 2) (by omega) (by omega) (by omega),
    hread (t - 16) t (by omega) (by omega) (by omega)]
  rfl

/-- **The sixteen words in place are enough for the schedule of eighty.** -/
theorem Holds.expandAt {buffer : CharArray 64} {t : Nat} {block : Words}
    (h : Holds buffer t block) : (expandAt t block).1 = scheduleWord buffer.val t ∧
      Holds buffer (t + 1) (expandAt t block).2 := by
  have hnext := h.set
  rw [Sha1Rounds.expandAt]
  split
  · rename_i ht
    rw [← h.blk0_eq ht] at hnext ⊢
    exact ⟨rfl, hnext⟩
  · rename_i ht
    rw [← h.blk_eq (by omega)] at hnext ⊢
    exact ⟨rfl, hnext⟩

/-! ### All the rounds -/

/-- The variables after the first `n` rounds. -/
def roundsUpTo (start : Vars) (n : Nat) : Vars :=
  (List.range n).foldl (fun vars t => roundAt t vars) start

theorem roundsUpTo_succ (start : Vars) (n : Nat) :
    roundsUpTo start (n + 1) = roundAt n (roundsUpTo start n) := by
  rw [roundsUpTo, List.range_succ, List.foldl_append]
  rfl

theorem roundsUpTo_spec (buffer : CharArray 64) (start : Vars)
    (hstart : start.block = blockWords buffer) {n : Nat} (hn : n ≤ 80) :
    Holds buffer n (roundsUpTo start n).block ∧
      seen (roles n) (roundsUpTo start n) =
        Sha1Standard.rounds (schedule buffer.val 80) n (seen (roles 0) start) := by
  induction n with
  | zero => exact ⟨hstart ▸ holds_blockWords buffer, rfl⟩
  | succ n ih =>
    obtain ⟨hholds, hseen⟩ := ih (by omega)
    obtain ⟨hword, hnext⟩ := hholds.expandAt
    constructor
    · rw [roundsUpTo_succ, block_roundAt]
      exact hnext
    · rw [roundsUpTo_succ, seen_roundAt, hseen, hword, Sha1Standard.rounds,
        Sha1Standard.getD_schedule buffer.val (by omega)]

/-- The chaining value that `uint32_t state[5]` holds. -/
def registers (state : Vector UInt32 5) : Registers :=
  ⟨state[0], state[1], state[2], state[3], state[4]⟩

/-- **`SHA1Transform` is the compression of the standard.** -/
theorem registers_sha1Transform (state : Vector UInt32 5) (buffer : CharArray 64) :
    registers (sha1Transform state buffer) =
      Sha1Standard.compress (registers state) buffer.val := by
  let start : Vars := ⟨state[0], state[1], state[2], state[3], state[4], blockWords buffer⟩
  have hfold : transformRounds.foldl (fun vars round => round vars) start =
      roundsUpTo start 80 := by
    rw [transformRounds_eq, List.foldl_map]
    rfl
  have hroles : roles 80 = roles 0 := rfl
  have hrounds := (roundsUpTo_spec buffer start rfl (Nat.le_refl 80)).2
  rw [hroles, ← hfold] at hrounds
  exact congrArg (fun regs : Registers => (⟨state[0] + regs.a, state[1] + regs.b,
    state[2] + regs.c, state[3] + regs.d, state[4] + regs.e⟩ : Registers)) hrounds

end Cdht.Sha1Rounds
