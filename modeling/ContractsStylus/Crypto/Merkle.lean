import ContractsStylus.Crypto.Hash
import ContractsStylus.Library.HashQueue

/-!
# Merkle proof verification

`Verifier` with a custom builder, and its Keccak instance. The values are `[u8; 32]` in the
source; nothing depends on that beyond their order and on how they are hashed, so the model is
over any linearly ordered type of values.

`verifyMultiProofWithBuilder` keeps two queues by position: `hashes`, which starts as the leaves
and is pushed to, and `proof`. A position past the end of `hashes` panics when the first operand
is read and is an error when the second one is.

## The loop and its queues

The loop of the source runs over the flags and reads from three slices by position. A queue is the
more convenient view, and the library has the theory of queues of hashes with flags; the link is the
invariant that what the loop has left to read is the rest of each queue. Errors and panics of the
loop are kept apart until it is known which of them can occur.

The checks before the loop compare lengths. They are written with additions and subtractions of
`usize` in the source; on lengths of slices these do not overflow.

## Main definitions

* `verifyWithBuilder`, `verifyMultiProofWithBuilder`, `verify`, `verifyMultiProof`

## Main results

* `verifyMultiProofWithBuilder_eq_ok` — the loop is `HashQueue.consumeAll`, and it consumes both
  queues completely when it gets to the end
-/

namespace ContractsStylus

namespace Merkle

open BuildHasher HashQueue

variable {B S α : Type} [BuildHasher B S] [Hasher S α] [Hash α] [LinearOrder α]

/-- `MultiProofError`. -/
inductive MultiProofError
  /-- The proof length does not match the flags. -/
  | InvalidProofLength
  /-- Tried to access uninitialized memory. -/
  | InvalidRootChild
  /-- The number of leaves and proof members does not match the amount of hashes necessary to
  complete the verification. -/
  | InvalidTotalHashes
  /-- No leaves were provided for a non-trivial tree. -/
  | NoLeaves
  deriving DecidableEq, Repr

/-- Rebuild the root from `leaf`, and compare. -/
def verifyWithBuilder (proof : List α) (root leaf : α) (builder : B) : Bool :=
  decide (proof.foldl (fun leaf hash => commutativeHashPair leaf hash (buildHasher builder)) leaf
    = root)

/-- The local variables of the loop: the main queue and the positions in both queues. -/
structure Rebuild (α : Type) where
  hashes : List α
  hashesPos : ℕ
  proofPos : ℕ

/-- The body of the loop over `proof_flags`. -/
def rebuildStep (proof : List α) (builder : B) (s : Rebuild α) (flag : Bool) :
    Result MultiProofError (Rebuild α) := do
  let a ← index s.hashes s.hashesPos
  let hashesPos := s.hashesPos + 1
  if flag then
    let b ← okOr s.hashes[hashesPos]? .InvalidRootChild
    let hash := commutativeHashPair a b (buildHasher builder)
    pure ⟨s.hashes ++ [hash], hashesPos + 1, s.proofPos⟩
  else
    let b ← okOr proof[s.proofPos]? .InvalidProofLength
    let hash := commutativeHashPair a b (buildHasher builder)
    pure ⟨s.hashes ++ [hash], hashesPos, s.proofPos + 1⟩

/-- Rebuild the root from all the `leaves` at once, and compare. -/
def verifyMultiProofWithBuilder (proof : List α) (proofFlags : List Bool) (root : α)
    (leaves : List α) (builder : B) : Result MultiProofError Bool :=
  let totalHashes := proofFlags.length
  if leaves.length + proof.length ≠ totalHashes + 1 then
    .err .InvalidTotalHashes
  else if totalHashes = 0 then do
    let rebuiltRoot ← match leaves.head? with
      | some leaf => .ok leaf
      | none => index proof 0
    pure (decide (root = rebuiltRoot))
  else if leaves = [] then
    .err .NoLeaves
  else do
    let s ← proofFlags.foldlM (rebuildStep proof builder) ⟨leaves, 0, 0⟩
    let rebuiltRoot ← index s.hashes (totalHashes + leaves.length - 1)
    pure (decide (root = rebuiltRoot))

/-- `Verifier::verify`. -/
def verify (keccak256 : Bytes → Bytes32) (proof : List Bytes32) (root leaf : Bytes32) : Bool :=
  verifyWithBuilder proof root leaf (⟨⟩ : KeccakBuilder keccak256)

/-- `Verifier::verify_multi_proof`. -/
def verifyMultiProof (keccak256 : Bytes → Bytes32) (proof : List Bytes32) (proofFlags : List Bool)
    (root : Bytes32) (leaves : List Bytes32) : Result MultiProofError Bool :=
  verifyMultiProofWithBuilder proof proofFlags root leaves (⟨⟩ : KeccakBuilder keccak256)

/-! ### The loop as a queue -/

theorem verifyWithBuilder_iff {proof : List α} {root leaf : α} {builder : B} :
    verifyWithBuilder proof root leaf builder = true ↔
      HashTree.climb (pairHash builder) leaf proof = root :=
  decide_eq_true_iff

/-- What is left to consume of the two queues. -/
def Rebuild.left (proof : List α) (s : Rebuild α) : List α × List α :=
  (s.hashes.drop s.hashesPos, proof.drop s.proofPos)

/-- One round of the loop consumes from the queues what one step of `HashQueue` does, and fails
when that does. -/
theorem map_left_rebuildStep (proof : List α) (builder : B) (s : Rebuild α) (flag : Bool) :
    (rebuildStep proof builder s flag).toOption.map (Rebuild.left proof) =
      consume (pairHash builder) flag (s.left proof) := by
  rw [rebuildStep, Rebuild.left]
  cases ha : s.hashes[s.hashesPos]? with
  | none =>
    rw [List.drop_eq_nil_iff.mpr (List.getElem?_eq_none_iff.mp ha)]
    cases flag <;> simp only [index, ha, expect, panic_bind] <;> rfl
  | some a =>
    rw [drop_of_getElem? ha]
    simp only [index, ha, expect, ok_bind]
    cases flag with
    | true =>
      cases hb : s.hashes[s.hashesPos + 1]? with
      | none =>
        rw [List.drop_eq_nil_iff.mpr (List.getElem?_eq_none_iff.mp hb)]
        rfl
      | some b =>
        rw [drop_of_getElem? hb, consume, ← drop_concat hb]
        rfl
    | false =>
      cases hb : proof[s.proofPos]? with
      | none =>
        rw [List.drop_eq_nil_iff.mpr (List.getElem?_eq_none_iff.mp hb)]
        rfl
      | some b =>
        rw [drop_of_getElem? hb, consume, ← drop_concat ha]
        rfl

/-- The loop runs the flags. -/
theorem map_left_foldlM (proof : List α) (builder : B) (proofFlags : List Bool) :
    ∀ s : Rebuild α,
      (proofFlags.foldlM (rebuildStep proof builder) s).toOption.map (Rebuild.left proof) =
        consumeAll (pairHash builder) proofFlags (s.left proof) := by
  induction proofFlags with
  | nil => exact fun _ => rfl
  | cons flag proofFlags ih =>
    intro s
    rw [List.foldlM_cons, consumeAll, ← map_left_rebuildStep]
    cases rebuildStep proof builder s flag with
    | error e => rfl
    | ok s' => exact ih s'

/-- The loop pushes one hash for each flag. -/
theorem length_foldlM {proof : List α} {builder : B} {proofFlags : List Bool} :
    ∀ {s s' : Rebuild α}, proofFlags.foldlM (rebuildStep proof builder) s = .ok s' →
      s'.hashes.length = s.hashes.length + proofFlags.length := by
  induction proofFlags with
  | nil => rintro s s' ⟨⟩; rfl
  | cons flag proofFlags ih =>
    intro s s' h
    rw [List.foldlM_cons] at h
    obtain ⟨t, ht, hrest⟩ := bind_eq_ok.mp h
    have hpush : t.hashes.length = s.hashes.length + 1 := by
      simp only [rebuildStep, bind_eq_ok] at ht
      obtain ⟨a, -, ht⟩ := ht
      split at ht <;>
        · simp only [bind_eq_ok, pure_eq_ok] at ht
          obtain ⟨b, -, rfl⟩ := ht
          simp
    rw [ih hrest, hpush, List.length_cons]
    omega

/-- **What the verifier computes.** With at least one leaf and the right number of operands, it
answers exactly when the run over the flags gets to the end, and then the run has consumed
everything but one hash, which is compared with the root. -/
theorem verifyMultiProofWithBuilder_eq_ok {proof leaves : List α} {proofFlags : List Bool}
    {root : α} {builder : B} {b : Bool} (hne : leaves ≠ [])
    (hlen : leaves.length + proof.length = proofFlags.length + 1) :
    verifyMultiProofWithBuilder proof proofFlags root leaves builder = .ok b ↔
      ∃ r, consumeAll (pairHash builder) proofFlags (leaves, proof) = some ([r], []) ∧
        b = decide (root = r) := by
  rw [verifyMultiProofWithBuilder, if_neg (by simpa using hlen)]
  split
  · -- no flags: the leaf is the root
    rename_i hzero
    obtain ⟨r, rfl⟩ : ∃ r, leaves = [r] := by
      have hpos := List.length_pos_of_ne_nil hne
      exact List.length_eq_one_iff.mp (by omega)
    obtain rfl : proof = [] := by simpa [hzero] using hlen
    obtain rfl : proofFlags = [] := List.length_eq_zero_iff.mp hzero
    simp [consumeAll, eq_comm]
  · rename_i hpos
    have hloop := map_left_foldlM proof builder proofFlags ⟨leaves, 0, 0⟩
    rw [show Rebuild.left proof ⟨leaves, 0, 0⟩ = (leaves, proof) from rfl] at hloop
    rw [← hloop]
    cases hres : proofFlags.foldlM (rebuildStep proof builder) ⟨leaves, 0, 0⟩ with
    | error e => simp [bind, Except.bind, Except.toOption]
    | ok s =>
      rw [hres] at hloop
      obtain ⟨r, hr⟩ := consumeAll_exhausts hne hlen hloop.symm
      have hlast : s.hashes[proofFlags.length + leaves.length - 1]? = some r := by
        rw [Nat.add_comm, ← length_foldlM hres]
        exact getElem?_of_drop_eq_singleton (congrArg Prod.fst hr)
      rw [ok_bind, index_eq_ok.mpr hlast, ok_bind, pure_eq_ok]
      simp [Except.toOption, hr, eq_comm]

end Merkle

end ContractsStylus
