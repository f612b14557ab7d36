/-
  Cdht/NodeSetup.lean
  ===================
  **What a node is called** (`node_new` of `src/node/node.c`).

  A node takes its identity from a file or makes one, hashes it with the vendored SHA-1
  and prints the hash into its own 41 bytes.  The code that `load_or_generate_node_id`
  returns is ignored, so a node starts with whatever is in the array.  The hash is the
  sender of every packet of the node, and the text is what it logs.

  The server, the client and the command table are the subject of other files.
-/
import Cdht.Convert
import Cdht.Machine
import Cdht.NodeIdentity
import Cdht.Sha1Stream
import Cdht.Store

namespace Cdht.NodeSetup

open Cdht.Memory Cdht.Machine Cdht.Format Cdht.Convert Cdht.NodeIdentity Cdht.Store

/-! ### The function of the source -/

def BUCKETS : UInt64 := 1024

/-- `node_t` without its server and its client. -/
structure Node where
  hash : CharArray 20
  hashHexString : Block
  storage : KvStore

/-- `node_new`, with the content of `node_id` before it is filled: the node and the file
    afterwards. -/
def nodeNew (outcomes : Outcomes) (file : Option Bytes) (nodeId : NodeId) :
    Exec (Node × Option Bytes) := do
  let ((_, nodeId), file) := loadOrGenerateNodeId outcomes file nodeId
  let result ← Sha1.sha1 nodeId.val 20
  let stringHash ← cvtSha1ToString result
  let text ← stringAt 0 stringHash
  let (hashHexString, _) ← sprintf (malloc 41) 0 text
  return (⟨result, hashHexString, kvStoreNew BUCKETS⟩, file)

/-! ### Reading the text back -/

def digitOfLower (char : UInt8) : Option Nat :=
  (List.range 16).find? fun digit => lowerDigit digit = char

/-- The bytes that pairs of digits stand for: the inverse of `hexDigits`. -/
def bytesOfDigits : Bytes → Option Bytes
  | [] => some []
  | [_] => none
  | high :: low :: rest =>
      match digitOfLower high, digitOfLower low, bytesOfDigits rest with
      | some high, some low, some bytes => some (UInt8.ofNat (16 * high + low) :: bytes)
      | _, _, _ => none

theorem digitOfLower_lowerDigit {digit : Nat} (h : digit < 16) :
    digitOfLower (lowerDigit digit) = some digit := by
  have hall : ∀ digit < 16, digitOfLower (lowerDigit digit) = some digit := by decide
  exact hall digit h

theorem bytesOfDigits_hexDigits (bytes : Bytes) : bytesOfDigits (hexDigits bytes) = some bytes := by
  induction bytes with
  | nil => rfl
  | cons byte bytes ih =>
    have hbyte : byte.toNat < 256 := byte.toNat_lt
    have hvalue : 16 * (byte.toNat / 16) + byte.toNat % 16 = byte.toNat := Nat.div_add_mod _ 16
    have hdigits : hexDigits (byte :: bytes) =
        lowerDigit (byte.toNat / 16) :: lowerDigit (byte.toNat % 16) :: hexDigits bytes := rfl
    rw [hdigits, bytesOfDigits, digitOfLower_lowerDigit (by omega),
      digitOfLower_lowerDigit (by omega), ih]
    simp only [hvalue, UInt8.ofNat_toNat]

/-! ### What the node is called -/

/-- The node for an identity. -/
def nodeOf (nodeId : NodeId) : Node :=
  ⟨Sha1Standard.sha1 nodeId.val, filled (hexDigits (Sha1Standard.sha1 nodeId.val).val ++ [0]) 0,
    kvStoreNew BUCKETS⟩

theorem sha1_nodeId (nodeId : NodeId) :
    Sha1.sha1 nodeId.val 20 = .ok (Sha1Standard.sha1 nodeId.val) := by
  have htwenty : (20 : UInt32).toNat = nodeId.val.length := nodeId.property.symm
  rw [Sha1Stream.sha1_eq_ok (Nat.le_of_eq htwenty), htwenty, List.take_length]

theorem nodeNew_eq (outcomes : Outcomes) (file : Option Bytes) (nodeId : NodeId) :
    nodeNew outcomes file nodeId =
      .ok (nodeOf (loadOrGenerateNodeId outcomes file nodeId).1.2,
        (loadOrGenerateNodeId outcomes file nodeId).2) := by
  rcases hload : loadOrGenerateNodeId outcomes file nodeId with ⟨⟨code, id⟩, file'⟩
  have hlength : (hexDigits (Sha1Standard.sha1 id.val).val).length = 40 := by
    rw [length_hexDigits, (Sha1Standard.sha1 id.val).property]
  have hprint : sprintf (malloc 41) 0 (hexDigits (Sha1Standard.sha1 id.val).val) =
      .ok (filled (hexDigits (Sha1Standard.sha1 id.val).val ++ [0]) 0, 40) := by
    rw [sprintf_malloc, hlength]
    exact if_pos (by decide)
  simp only [nodeNew, hload, sha1_nodeId, cvtSha1ToString_eq, ok_bind,
    stringAt_filled (nul_not_mem_hexDigits _), hprint, pure_eq_ok, nodeOf]

/-! ### One start after the other -/

/-- A start of the node, with the identity file between the starts. -/
def startStep : Step (Option Bytes) (Outcomes × NodeId) Node
  | file, (outcomes, nodeId) => nodeNew outcomes file nodeId

theorem run_restarts {node : NodeId} {file : Option Bytes}
    (hloads : ∀ later before, ReadsSucceed later →
      loadOrGenerateNodeId later file before = ((0, node), file))
    {starts : List (Outcomes × NodeId)} (hstarts : ∀ start ∈ starts, ReadsSucceed start.1) :
    run startStep file starts = .ok (List.replicate starts.length (nodeOf node), file) := by
  induction starts with
  | nil => rfl
  | cons start starts ih =>
    obtain ⟨later, before⟩ := start
    have hrest := ih fun other hother => hstarts other (List.mem_cons_of_mem _ hother)
    have hfirst : startStep file (later, before) = .ok (nodeOf node, file) := by
      rw [startStep, nodeNew_eq, hloads later before (hstarts _ List.mem_cons_self)]
    simp only [run, hfirst, hrest, ok_bind, pure_eq_ok, List.length_cons, List.replicate_succ]

/-- **A node is called by the hash of its identity, and keeps its name.**  Every start
    returns, whatever becomes of the file and of the random numbers: the hash is the SHA-1
    of the twenty bytes of the identity, and the 41 bytes of the text hold forty digits
    that read back as the hash.  If the start has loaded its identity or brought all of it
    into the file, then every later start whose reads succeed has the same hash and the
    same text. -/
theorem node_keeps_name (outcomes : Outcomes) (file : Option Bytes) (before : NodeId) :
    ∃ node file', nodeNew outcomes file before = .ok (node, file') ∧
      node.hash = Sha1Standard.sha1 (loadOrGenerateNodeId outcomes file before).1.2.val ∧
      node.hashHexString.length = 41 ∧
      (∃ text, stringAt 0 node.hashHexString = .ok text ∧ text.length = 40 ∧
        bytesOfDigits text = some node.hash.val) ∧
      ((loadOrGenerateNodeId outcomes file before).1.1 = 0 → KeepsIdentity outcomes file →
        ∀ starts : List (Outcomes × NodeId), (∀ start ∈ starts, ReadsSucceed start.1) →
          run startStep file' starts = .ok (List.replicate starts.length node, file')) := by
  have hlength : (hexDigits (Sha1Standard.sha1 (loadOrGenerateNodeId outcomes file before).1.2.val).val
      ).length = 40 := by
    rw [length_hexDigits, (Sha1Standard.sha1 _).property]
  refine ⟨_, _, nodeNew_eq outcomes file before, rfl, ?_, ⟨_, ?_, hlength, ?_⟩, ?_⟩
  · rw [nodeOf, length_filled, List.length_append, hlength]
    rfl
  · exact stringAt_filled (nul_not_mem_hexDigits _) 0 0
  · exact bytesOfDigits_hexDigits _
  · intro hcode hkeeps starts hstarts
    have hstable : StableIdentity outcomes file := by
      by_cases hloads : Loads outcomes file
      · exact stable_of_loads hloads
      · exact stable_of_generates hloads (hkeeps.resolve_left hloads)
    apply run_restarts _ hstarts
    intro later before' hlater
    rcases hrun : loadOrGenerateNodeId outcomes file before with ⟨⟨code, id⟩, file'⟩
    rw [hrun] at hcode
    obtain rfl : code = 0 := hcode
    exact hstable before id file' hrun later before' hlater

end Cdht.NodeSetup
