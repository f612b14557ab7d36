/-
  Cdht/NodeIdentity.lean
  ======================
  **The identity of a node and the file it is kept in** (`src/helpers/network.c`).

  `load_or_generate_node_id` takes the identity from a file, or makes a random one and
  writes it to the file.  The file is an optional byte string, and how each library
  call of one run ends is an argument.  The result of `fread` is compared with 20; the
  result of `fwrite` is not looked at, so an identity may be reported that the file
  does not hold.
-/
import Cdht.Memory

namespace Cdht.NodeIdentity

open Cdht.Memory

abbrev NodeId := CharArray 20

/-- How the library calls of one run end. -/
structure Outcomes where
  openRead : Bool         -- `fopen(filename, "rb")` of an existing file
  readLimit : Nat         -- `fread` returns no more bytes than this
  random : Option NodeId  -- what `RAND_bytes` fills in, if it succeeds
  openWrite : Bool        -- `fopen(filename, "wb")`
  writeLimit : Nat        -- no more bytes than this reach the file

/-! ### The function -/

def fopenRead (outcomes : Outcomes) (file : Option Bytes) : Option Bytes :=
  if outcomes.openRead then file else none

/-- The bytes of `fread(id, 1, 20, fp)`. -/
def fread (outcomes : Outcomes) (content : Bytes) : Bytes :=
  content.take (min outcomes.readLimit 20)

theorem length_overwritten {n : Nat} (array : CharArray n) (bytes : Bytes) :
    (bytes.take n ++ array.val.drop bytes.length).length = n := by
  rw [List.length_append, List.length_take, List.length_drop, array.property]
  omega

/-- The array after bytes were read into its front. -/
def overwritten {n : Nat} (array : CharArray n) (bytes : Bytes) : CharArray n :=
  ⟨bytes.take n ++ array.val.drop bytes.length, length_overwritten array bytes⟩

/-- The part of the function that is reached if no identity was loaded.  Opening for
    writing empties the file. -/
def generateNodeId (outcomes : Outcomes) (file : Option Bytes) (id : NodeId) :
    (Int × NodeId) × Option Bytes :=
  match outcomes.random with
  | none => ((-1, id), file)  -- crypto error
  | some random =>
      if outcomes.openWrite then ((0, random), some (random.val.take outcomes.writeLimit))
      else ((-1, random), file)

/-- `load_or_generate_node_id`: the returned code, the array `id` and the file
    afterwards. -/
def loadOrGenerateNodeId (outcomes : Outcomes) (file : Option Bytes) (id : NodeId) :
    (Int × NodeId) × Option Bytes :=
  match fopenRead outcomes file with
  | some content =>
      let bytes := fread outcomes content
      let id := overwritten id bytes
      if bytes.length = 20 then ((0, id), file) else generateNodeId outcomes file id
  | none => generateNodeId outcomes file id

/-! ### Loading -/

/-- The run finds an identity in the file. -/
def Loads (outcomes : Outcomes) (file : Option Bytes) : Prop :=
  ∃ content ∈ fopenRead outcomes file, (fread outcomes content).length = 20

theorem overwritten_eq {n : Nat} (array : CharArray n) {bytes : Bytes} (h : bytes.length = n) :
    overwritten array bytes = ⟨bytes, h⟩ := by
  apply Subtype.ext
  show bytes.take n ++ array.val.drop bytes.length = bytes
  have hcovered : array.val.length ≤ bytes.length := Nat.le_of_eq (array.property.trans h.symm)
  rw [List.drop_of_length_le hcovered, List.append_nil, List.take_of_length_le (Nat.le_of_eq h)]

theorem fread_eq {outcomes : Outcomes} {content : Bytes}
    (h : (fread outcomes content).length = 20) : fread outcomes content = content.take 20 := by
  have hlimit : min outcomes.readLimit 20 = 20 := by
    rw [fread, List.length_take] at h
    omega
  rw [fread, hlimit]

theorem loadOrGenerate_of_loads {outcomes : Outcomes} {content : Bytes}
    (hopen : outcomes.openRead = true) (hread : (fread outcomes content).length = 20)
    (hlength : (content.take 20).length = 20) (id : NodeId) :
    loadOrGenerateNodeId outcomes (some content) id =
      ((0, ⟨content.take 20, hlength⟩), some content) := by
  have hid : overwritten id (fread outcomes content) = ⟨content.take 20, hlength⟩ := by
    rw [overwritten_eq id hread]
    exact Subtype.ext (fread_eq hread)
  simp only [loadOrGenerateNodeId, fopenRead, hopen, if_true, hread, hid]

theorem loadOrGenerate_of_not_loads {outcomes : Outcomes} {file : Option Bytes}
    (h : ¬ Loads outcomes file) (id : NodeId) :
    ∃ id', loadOrGenerateNodeId outcomes file id = generateNodeId outcomes file id' := by
  unfold loadOrGenerateNodeId
  rcases hopen : fopenRead outcomes file with _ | content
  · exact ⟨id, rfl⟩
  · have hread : ¬ (fread outcomes content).length = 20 := fun hread =>
      h ⟨content, hopen, hread⟩
    exact ⟨overwritten id (fread outcomes content), if_neg hread⟩

/-! ### Stability -/

/-- The file can be opened, and `fread` returns as many bytes as it is asked for and
    the file has. -/
def ReadsSucceed (outcomes : Outcomes) : Prop :=
  outcomes.openRead = true ∧ 20 ≤ outcomes.readLimit

/-- If the run reports an identity, then a later run on the file as it was left, with
    reads succeeding, reports the same one (and leaves the file as it is). -/
def StableIdentity (outcomes : Outcomes) (file : Option Bytes) : Prop :=
  ∀ before id file', loadOrGenerateNodeId outcomes file before = ((0, id), file') →
    ∀ later before', ReadsSucceed later →
      loadOrGenerateNodeId later file' before' = ((0, id), file')

/-- The run loads an identity, or reports none, or brings all of it into the file. -/
def KeepsIdentity (outcomes : Outcomes) (file : Option Bytes) : Prop :=
  Loads outcomes file ∨ outcomes.random = none ∨ outcomes.openWrite = false ∨
    20 ≤ outcomes.writeLimit

theorem fread_of_readsSucceed {later : Outcomes} (h : ReadsSucceed later) (content : Bytes) :
    fread later content = content.take 20 := by
  rw [fread, Nat.min_eq_right h.2]

/-- A file of 20 bytes or more gives every later run the same identity. -/
theorem later_loads {later : Outcomes} (h : ReadsSucceed later) {content : Bytes}
    (hlength : (content.take 20).length = 20) (before : NodeId) :
    loadOrGenerateNodeId later (some content) before =
      ((0, ⟨content.take 20, hlength⟩), some content) := by
  refine loadOrGenerate_of_loads h.1 ?_ hlength before
  rw [fread_of_readsSucceed h, hlength]

theorem stable_of_loads {outcomes : Outcomes} {file : Option Bytes} (h : Loads outcomes file) :
    StableIdentity outcomes file := by
  intro before id file' hrun later before' hlater
  obtain ⟨content, hopen, hread⟩ := h
  have hopened : outcomes.openRead = true := by
    by_contra hclosed
    rw [fopenRead, if_neg hclosed] at hopen
    cases hopen
  rw [fopenRead, if_pos hopened] at hopen
  obtain rfl : file = some content := hopen
  have hlength : (content.take 20).length = 20 := by
    rw [← fread_eq hread]
    exact hread
  rw [loadOrGenerate_of_loads hopened hread hlength] at hrun
  cases hrun
  exact later_loads hlater hlength before'

theorem stable_of_generates {outcomes : Outcomes} {file : Option Bytes}
    (hloads : ¬ Loads outcomes file) (h : outcomes.random = none ∨ outcomes.openWrite = false ∨
      20 ≤ outcomes.writeLimit) : StableIdentity outcomes file := by
  intro before id file' hrun later before' hlater
  obtain ⟨id', hgenerate⟩ := loadOrGenerate_of_not_loads hloads before
  rw [hgenerate, generateNodeId] at hrun
  rcases hrandom : outcomes.random with _ | random
  · rw [hrandom] at hrun
    cases hrun
  by_cases hopen : outcomes.openWrite = true
  · simp only [hrandom, hopen, if_true] at hrun
    cases hrun
    have hwritten : 20 ≤ outcomes.writeLimit := by
      rcases h with h | h | h
      · rw [hrandom] at h
        cases h
      · rw [hopen] at h
        cases h
      · exact h
    have hall : id.val.take outcomes.writeLimit = id.val := by
      apply List.take_of_length_le
      rw [id.property]
      exact hwritten
    have hid : id.val.take 20 = id.val := List.take_of_length_le (Nat.le_of_eq id.property)
    rw [hall, later_loads hlater (by rw [hid, id.property])]
    simp only [hid]
  · simp only [hrandom, hopen, Bool.false_eq_true, if_false] at hrun
    cases hrun

/-- A file of fewer than 20 bytes gives no identity: the next run needs a new one. -/
theorem later_fails {later : Outcomes} (hrandom : later.random = none) {content : Bytes}
    (hshort : content.length < 20) (before : NodeId) :
    (loadOrGenerateNodeId later (some content) before).1.1 = -1 := by
  have hloads : ¬ Loads later (some content) := by
    rintro ⟨content', hopen, hread⟩
    have hcontent : content' = content := by
      unfold fopenRead at hopen
      split at hopen
      · cases hopen
        rfl
      · cases hopen
    rw [hcontent, fread, List.length_take] at hread
    omega
  obtain ⟨id', hgenerate⟩ := loadOrGenerate_of_not_loads hloads before
  rw [hgenerate, generateNodeId, hrandom]

/-- **A reported identity is stable exactly if it reached the file.**  For every file
    and every combination of outcomes: whatever `load_or_generate_node_id` reports with
    code 0 is reported again by every later run whose reads succeed, if and only if
    the run found 20 bytes in the file, or failed to make or to store an identity with
    code -1, or `fwrite` brought all 20 bytes into the file. -/
theorem identity_stable_iff (outcomes : Outcomes) (file : Option Bytes) :
    StableIdentity outcomes file ↔ KeepsIdentity outcomes file := by
  constructor
  · intro hstable
    by_contra hkeeps
    simp only [KeepsIdentity, not_or, Bool.not_eq_false, Nat.not_le] at hkeeps
    obtain ⟨hloads, hrandom, hopen, hwritten⟩ := hkeeps
    obtain ⟨random, hrandom⟩ := Option.ne_none_iff_exists'.mp hrandom
    obtain ⟨id', hgenerate⟩ := loadOrGenerate_of_not_loads hloads random
    have hrun : loadOrGenerateNodeId outcomes file random =
        ((0, random), some (random.val.take outcomes.writeLimit)) := by
      simp only [hgenerate, generateNodeId, hrandom, hopen, if_true]
    -- a later run finds too few bytes, and gets no random ones
    have hlater := hstable random random _ hrun ⟨true, 20, none, true, 20⟩ random
      ⟨rfl, Nat.le_refl 20⟩
    have hshort : (random.val.take outcomes.writeLimit).length < 20 := by
      rw [List.length_take]
      omega
    have hfails := @later_fails ⟨true, 20, none, true, 20⟩ rfl _ hshort random
    rw [hlater] at hfails
    cases hfails
  · intro hkeeps
    by_cases hloads : Loads outcomes file
    · exact stable_of_loads hloads
    · exact stable_of_generates hloads (hkeeps.resolve_left hloads)

def idOf (byte : UInt8) : NodeId := ⟨List.replicate 20 byte, List.length_replicate⟩

/-- There is no file yet and the disk takes 5 bytes of the identity: the run reports
    it, and the next one reports another. -/
theorem short_write_loses_identity :
    loadOrGenerateNodeId ⟨true, 20, some (idOf 1), true, 5⟩ none (idOf 0) =
        ((0, idOf 1), some (List.replicate 5 1)) ∧
      ReadsSucceed ⟨true, 20, some (idOf 2), true, 20⟩ ∧
      loadOrGenerateNodeId ⟨true, 20, some (idOf 2), true, 20⟩ (some (List.replicate 5 1))
        (idOf 0) = ((0, idOf 2), some (List.replicate 20 2)) ∧
      ¬ StableIdentity ⟨true, 20, some (idOf 1), true, 5⟩ none := by
  refine ⟨by decide, ⟨rfl, Nat.le_refl 20⟩, by decide, ?_⟩
  intro hstable
  have hlater := hstable (idOf 0) (idOf 1) (some (List.replicate 5 1)) (by decide)
    ⟨true, 20, some (idOf 2), true, 20⟩ (idOf 0) ⟨rfl, Nat.le_refl 20⟩
  exact absurd hlater (by decide)

end Cdht.NodeIdentity
