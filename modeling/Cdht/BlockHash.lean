/-
  Cdht/BlockHash.lean
  ===================
  **Iterated block functions and their streaming form.**

  A hash in the Merkle–Damgård style folds a compression function over the blocks of
  a message.  A streaming implementation sees the message in pieces: it keeps the
  chaining value over the whole blocks seen so far (`chain`) and the bytes after the
  last of them (`pending`).  How the message was cut into pieces leaves no trace in
  these two (`chain_append`, `pending_append`), for any block size, compression function
  and type of symbols.
-/
import Mathlib.Data.List.Basic

namespace Cdht.BlockHash

variable {α σ : Type} (size : Nat) (compress : σ → List α → σ)

/-- The chaining value after the first `blocks` blocks of a message. -/
def compressBlocks : Nat → σ → List α → σ
  | 0, state, _ => state
  | blocks + 1, state, message =>
      compressBlocks blocks (compress state (message.take size)) (message.drop size)

/-- The chaining value over all the whole blocks of a message. -/
def chain (state : σ) (message : List α) : σ :=
  compressBlocks size compress (message.length / size) state message

/-- What follows the last whole block of a message. -/
def pending (message : List α) : List α := message.drop (message.length / size * size)

/-! ### Short messages and single blocks -/

theorem length_pending (message : List α) :
    (pending size message).length = message.length % size := by
  have hdiv : size * (message.length / size) + message.length % size = message.length :=
    Nat.div_add_mod message.length size
  rw [Nat.mul_comm] at hdiv
  rw [pending, List.length_drop]
  omega

theorem chain_of_lt {message : List α} (h : message.length < size) (state : σ) :
    chain size compress state message = state := by
  rw [chain, Nat.div_eq_of_lt h, compressBlocks]

theorem pending_of_lt {message : List α} (h : message.length < size) :
    pending size message = message := by
  rw [pending, Nat.div_eq_of_lt h, Nat.zero_mul, List.drop_zero]

variable {size}

theorem chain_block_append {block : List α} (hpos : 0 < size) (hblock : block.length = size)
    (state : σ) (rest : List α) :
    chain size compress state (block ++ rest) = chain size compress (compress state block) rest := by
  have hcount : (block ++ rest).length / size = rest.length / size + 1 := by
    rw [List.length_append, hblock, Nat.add_comm, Nat.add_div_right _ hpos]
  rw [chain, chain, hcount, compressBlocks, List.take_left' hblock, List.drop_left' hblock]

theorem pending_block_append {block : List α} (hpos : 0 < size) (hblock : block.length = size)
    (rest : List α) : pending size (block ++ rest) = pending size rest := by
  have hcount : (block ++ rest).length / size = rest.length / size + 1 := by
    rw [List.length_append, hblock, Nat.add_comm, Nat.add_div_right _ hpos]
  rw [pending, pending, hcount, Nat.succ_mul, Nat.add_comm, ← List.drop_drop,
    List.drop_left' hblock]

/-! ### Independence of the pieces -/

/-- A message is a run of whole blocks before its pending part, or shorter than one. -/
theorem block_induction {motive : List α → Prop} (hpos : 0 < size)
    (short : ∀ message : List α, message.length < size → motive message)
    (block : ∀ front rest : List α, front.length = size → motive rest → motive (front ++ rest))
    (message : List α) : motive message := by
  induction hlength : message.length using Nat.strongRecOn generalizing message with
  | ind length ih =>
    by_cases hlt : message.length < size
    · exact short message hlt
    · have hfront : (message.take size).length = size := by
        rw [List.length_take]
        omega
      have hshorter : (message.drop size).length < length := by
        rw [List.length_drop]
        omega
      have hrest : motive (message.drop size) := ih _ hshorter _ rfl
      have hwhole := block (message.take size) (message.drop size) hfront hrest
      rwa [List.take_append_drop] at hwhole

theorem chain_append (hpos : 0 < size) (state : σ) (message data : List α) :
    chain size compress state (message ++ data) =
      chain size compress (chain size compress state message) (pending size message ++ data) := by
  induction message using block_induction hpos generalizing state with
  | short message hlt => rw [chain_of_lt size compress hlt, pending_of_lt size hlt]
  | block front rest hfront ih =>
    rw [List.append_assoc, chain_block_append compress hpos hfront, ih,
      chain_block_append compress hpos hfront, pending_block_append hpos hfront]

theorem pending_append (hpos : 0 < size) (message data : List α) :
    pending size (message ++ data) = pending size (pending size message ++ data) := by
  induction message using block_induction hpos with
  | short message hlt => rw [pending_of_lt size hlt]
  | block front rest hfront ih =>
    rw [List.append_assoc, pending_block_append hpos hfront, ih, pending_block_append hpos hfront]

end Cdht.BlockHash
