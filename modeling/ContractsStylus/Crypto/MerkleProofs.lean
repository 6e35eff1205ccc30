import ContractsStylus.Crypto.Merkle

/-!
# What the Merkle verifier accepts

For every builder, hence for Keccak: a multi-proof that is accepted proves each of its leaves, a
complete tree has a multi-proof for any set of its leaves, and a single proof reaches the root of
a tree from the labels of its nodes and from nothing else.

## Trees as terms

A tree is a term with labels at its leaves, and the label of a node is the pair hash of the labels
below it. Soundness needs no tree: an accepted multi-proof is turned into single proofs by following
each leaf through the queue. Completeness needs one, and goes level by level.

Only the last result is about which hash it is, and assumes that it tells apart the pairs that occur
in the tree.

## Main results

* `exists_verify_of_verifyMultiProof` — soundness of multi-proofs
* `verifyMultiProof_complete` — completeness, and agreement with single proofs
* `exists_verify_iff_mem_labels` — what single proofs prove
-/

namespace ContractsStylus

namespace Merkle

open HashTree HashQueue

variable {B S α : Type} [BuildHasher B S] [Hasher S α] [Hash α] [LinearOrder α]

/-! ### Soundness of multi-proofs

What is left of the code is a queue, and the rule for queues is about any flags and proofs. -/

/-- An answer was preceded by the check of the number of operands. -/
theorem length_of_verifyMultiProof {proof leaves : List α} {proofFlags : List Bool} {root : α}
    {builder : B} {b : Bool}
    (h : verifyMultiProofWithBuilder proof proofFlags root leaves builder = .ok b) :
    leaves.length + proof.length = proofFlags.length + 1 := by
  rw [verifyMultiProofWithBuilder, guard_eq_ok] at h
  exact not_not.mp h.1

/-- **Soundness of multi-proofs.** Every leaf of an accepted multi-proof has a proof of its own. -/
theorem exists_verify_of_verifyMultiProof (proof leaves : List α) (proofFlags : List Bool)
    (root : α) (builder : B) (hne : leaves ≠ [])
    (h : verifyMultiProofWithBuilder proof proofFlags root leaves builder = .ok true) :
    ∀ leaf ∈ leaves, ∃ p, verifyWithBuilder p root leaf builder = true := by
  intro leaf hleaf
  obtain ⟨r, hrun, hroot⟩ :=
    (verifyMultiProofWithBuilder_eq_ok hne (length_of_verifyMultiProof h)).mp h
  obtain ⟨p, hp⟩ := consumeAll_climbs (pairHash_comm builder) hrun leaf hleaf
  refine ⟨p, verifyWithBuilder_iff.mpr ?_⟩
  rw [hp]
  exact (of_decide_eq_true hroot.symm).symm

theorem exists_verify_transcript :
    ∃ p, verifyWithBuilder p (pairHash () (pairHash () [2] [3]) [4] : Bytes) [3] () = true :=
  exists_verify_of_verifyMultiProof [[4]] [[2], [3]] [true, false] _ () (by decide) (by decide)
    [3] (by decide)

/-! ### Completeness of multi-proofs

The proof is laid out in the library. It is shown to pass the checks of the code, which are on
numbers of operands. -/

/-- **Completeness of multi-proofs.** The level-order multi-proof of any leaves of a complete
tree is accepted, and with no flag set a multi-proof is a single proof. -/
theorem verifyMultiProof_complete (builder : B) :
    (∀ (t : CompleteTree (pairHash builder : α → α → α)) (indices : List ℕ), indices ≠ [] →
      indices.Pairwise (· > ·) → (∀ i ∈ indices, t.IsLeaf i) →
        verifyMultiProofWithBuilder (t.multiProof indices).1 (t.multiProof indices).2 t.root
          (indices.map t.node) builder = .ok true) ∧
    ∀ (p : List α) (root leaf : α),
      verifyMultiProofWithBuilder p (List.replicate p.length false) root [leaf] builder =
        .ok (verifyWithBuilder p root leaf builder) := by
  constructor
  · intro t indices hne hdesc hleaf
    have hrun := t.consumeAll_multiProof (pairHash_comm builder) hne hdesc hleaf
    refine (verifyMultiProofWithBuilder_eq_ok (by simpa using hne) ?_).mpr ⟨t.root, hrun, by simp⟩
    obtain ⟨hqueue, hproof⟩ := consumeAll_length hrun
    have hflags := List.count_true_add_count_false (t.multiProof indices).2
    simp only [List.length_singleton, List.length_nil] at hqueue hproof
    omega
  · intro p root leaf
    refine (verifyMultiProofWithBuilder_eq_ok (by simp) (by simp; omega)).mpr
      ⟨_, consumeAll_replicate_false leaf p, ?_⟩
    rw [verifyWithBuilder, decide_eq_decide]
    exact eq_comm

/-- Three leaves under two inner nodes. -/
def transcriptTree : CompleteTree (pairHash () : Bytes → Bytes → Bytes) where
  n := 3
  one_le := by decide
  node
    | 0 => pairHash () (pairHash () [3] [4]) [2]
    | 1 => pairHash () [3] [4]
    | i => [BitVec.ofNat 8 i]
  node_eq
    | 0, _ => rfl
    | 1, _ => rfl

theorem verifyMultiProof_transcriptTree :
    verifyMultiProofWithBuilder [[3]] [false, true] transcriptTree.root [[4], [2]] () =
      .ok true :=
  (verifyMultiProof_complete ()).1 transcriptTree [4, 2] (by decide) (by decide)
    (by simp [CompleteTree.IsLeaf, transcriptTree])

/-! ### Single proofs

A single proof is a climb. -/

/-- **What single proofs prove.** A value can be proved against the root of a tree exactly when it
labels one of its nodes, provided that the pair hash tells the pairs of the tree's inner nodes
from all others and that no leaf is a hash. A pair hash that tells all unordered pairs apart is
`IsPairInjectiveOn` every tree. -/
theorem exists_verify_iff_mem_labels {builder : B} {t : HashTree.Tree α}
    (hinj : IsPairInjectiveOn (pairHash builder) t)
    (hleaf : ∀ a ∈ t.leaves, ∀ b c, pairHash builder b c ≠ a) (x : α) :
    (∃ p, verifyWithBuilder p (t.label (pairHash builder)) x builder = true) ↔
      x ∈ t.labels (pairHash builder) := by
  constructor
  · rintro ⟨p, hp⟩
    exact mem_labels_of_climb x p t hinj hleaf (verifyWithBuilder_iff.mp hp)
  · intro hx
    obtain ⟨p, hp⟩ := climbs_of_mem_labels (pairHash_comm builder) hx
    exact ⟨p, verifyWithBuilder_iff.mpr hp⟩

theorem not_exists_verify_transcript :
    ¬∃ p, verifyWithBuilder p (pairHash () (pairHash () [2] [3]) [4] : Bytes) [5] () = true := by
  have h := exists_verify_iff_mem_labels (isPairInjective_transcript.on
    (.node (.node (.leaf [2]) (.leaf [3])) (.leaf [4]))) ?_ [5]
  · exact h.not.mpr (by decide)
  · simp only [HashTree.Tree.leaves, List.cons_append, List.nil_append, List.mem_cons,
      List.not_mem_nil, or_false]
    rintro a (rfl | rfl | rfl) b c <;> exact pairHash_transcript_ne (by decide) _

end Merkle

end ContractsStylus
