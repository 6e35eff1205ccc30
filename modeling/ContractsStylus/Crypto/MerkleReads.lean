import ContractsStylus.Crypto.Merkle

/-!
# What the multi-proof verifier reads

The two queues are read by position, and only the total number of operands is checked before the
loop. Nevertheless no position is past the end of the hashes when the first operand of a pass is
read: by then fewer flags were true than there are leaves, as a true flag reads a second operand
and fails when there is none. When the loop gets to the end, every position of the proof and every
position of the hashes but the last one was read, in order and once.

What is read is recorded beside the loop, which goes as it does without the record.

## Why the first read is safe

A pass reads one operand from the hashes, and a second one from the hashes or from the proof, and
pushes one hash. So the number of hashes that are left falls by one with each true flag and stays
the same with each false one. `Within` is that count, and together with the check before the loop it
says that a hash is left at the beginning of every pass.

That a second operand may be missing is not excluded: it is an error, and the loop ends with it.

## Main definitions

* `Rebuild.Within` — the invariant of the loop
* `recordStep` — the body of the loop with a record of what it reads

## Main results

* `map_rebuild_foldlM` — the record changes nothing
* `multiProof_consumes` — no panic, and everything is consumed
-/

namespace ContractsStylus

namespace Merkle

open BuildHasher

variable {B S α : Type} [BuildHasher B S] [Hasher S α] [Hash α] [LinearOrder α]

/-- The variables of the loop, and the positions read in the hashes and in the proof. -/
structure Recorded (α : Type) where
  rebuild : Rebuild α
  hashesRead : List ℕ
  proofRead : List ℕ

/-- The body of the loop, with a record of what it reads. -/
def recordStep (proof : List α) (builder : B) (s : Recorded α) (flag : Bool) :
    Result MultiProofError (Recorded α) := do
  let rebuild ← rebuildStep proof builder s.rebuild flag
  let pos := s.rebuild.hashesPos
  if flag then pure ⟨rebuild, s.hashesRead ++ [pos, pos + 1], s.proofRead⟩
  else pure ⟨rebuild, s.hashesRead ++ [pos], s.proofRead ++ [s.rebuild.proofPos]⟩

/-- Nothing is read yet. -/
def Recorded.start (leaves : List α) : Recorded α := ⟨⟨leaves, 0, 0⟩, [], []⟩

variable {proof leaves : List α} {builder : B} {flags : List Bool} {flag : Bool}

theorem map_rebuild_recordStep (s : Recorded α) :
    Recorded.rebuild <$> recordStep proof builder s flag =
      rebuildStep proof builder s.rebuild flag := by
  rw [recordStep]
  cases rebuildStep proof builder s.rebuild flag with
  | error e => rfl
  | ok t => cases flag <;> rfl

/-- **The record changes nothing.** -/
theorem map_rebuild_foldlM (proof : List α) (builder : B) (flags : List Bool) : ∀ s : Recorded α,
    Recorded.rebuild <$> flags.foldlM (recordStep proof builder) s =
      flags.foldlM (rebuildStep proof builder) s.rebuild := by
  induction flags with
  | nil => exact fun _ => rfl
  | cons flag flags ih =>
    intro s
    rw [List.foldlM_cons, List.foldlM_cons, ← map_rebuild_recordStep]
    cases recordStep proof builder s flag with
    | error e => rfl
    | ok t => exact ih t

/-! ### The loop stays within the queues -/

/-- The invariant of the loop, after some flags: the positions count what was read, fewer flags
were true than there are leaves, and no more flags were false than there are proof members. -/
structure Rebuild.Within (leaves proof : List α) (done : List Bool) (s : Rebuild α) : Prop where
  hashesPos_eq : s.hashesPos = done.length + done.count true
  proofPos_eq : s.proofPos = done.count false
  length_hashes : s.hashes.length = leaves.length + done.length
  isPrefix : leaves <+: s.hashes
  count_true_lt : done.count true < leaves.length
  count_false_le : done.count false ≤ proof.length

/-- The recorded positions are those passed. -/
structure Recorded.Within (leaves proof : List α) (done : List Bool) (s : Recorded α) : Prop where
  rebuild : s.rebuild.Within leaves proof done
  hashesRead_eq : s.hashesRead = List.range s.rebuild.hashesPos
  proofRead_eq : s.proofRead = List.range s.rebuild.proofPos

variable {done : List Bool}

/-- **One pass**: the first operand is there, and a second operand that is not is an error. -/
theorem Rebuild.Within.returns {s : Rebuild α} (h : s.Within leaves proof done) (flag : Bool) :
    (rebuildStep proof builder s flag).Returns fun s' => s'.Within leaves proof (done ++ [flag]) ∧
      s'.hashesPos = s.hashesPos + (if flag then 2 else 1) ∧
      s'.proofPos = s.proofPos + (if flag then 0 else 1) := by
  have hpos := h.hashesPos_eq
  have hproof := h.proofPos_eq
  have hlength := h.length_hashes
  have htrue := h.count_true_lt
  have hfalse := h.count_false_le
  obtain ⟨a, ha⟩ : ∃ a, s.hashes[s.hashesPos]? = some a :=
    ⟨_, List.getElem?_eq_getElem (by omega)⟩
  have hstart (x : α) : leaves <+: s.hashes ++ [x] := h.isPrefix.trans (List.prefix_append _ _)
  rw [rebuildStep, index_eq_ok.mpr ha, ok_bind]
  cases flag <;>
    · refine .bind (.okOr fun b hb => (List.getElem?_eq_some_iff.mp hb).1) fun b hb => ?_
      refine Or.inl ⟨_, rfl, ⟨?_, ?_, ?_, hstart _, ?_, ?_⟩, rfl, rfl⟩ <;>
        simp <;> omega

theorem Recorded.Within.returns {s : Recorded α} (h : s.Within leaves proof done) (flag : Bool) :
    (recordStep proof builder s flag).Returns fun s' =>
      s'.Within leaves proof (done ++ [flag]) := by
  refine (h.rebuild.returns flag).bind ?_
  rintro rebuild ⟨hwithin, hhashes, hproof⟩
  have hhashesRead := h.hashesRead_eq
  have hproofRead := h.proofRead_eq
  cases flag with
  | true =>
    refine Or.inl ⟨_, rfl, hwithin, ?_, ?_⟩
    · simp only
      rw [hhashes, if_pos rfl, hhashesRead, List.range_succ, List.range_succ, List.append_assoc]
      rfl
    · simp only
      rw [hproof, if_pos rfl, hproofRead, add_zero]
  | false =>
    refine Or.inl ⟨_, rfl, hwithin, ?_, ?_⟩
    · simp only
      rw [hhashes, if_neg Bool.false_ne_true, hhashesRead, List.range_succ]
    · simp only
      rw [hproof, if_neg Bool.false_ne_true, hproofRead, List.range_succ]

/-- **The loop does not panic**, whatever the flags are. -/
theorem returns_foldlM (proof : List α) (builder : B) (hne : leaves ≠ []) (flags : List Bool) :
    (flags.foldlM (recordStep proof builder) (.start leaves)).Returns fun s =>
      s.Within leaves proof flags := by
  refine .foldlM ⟨⟨rfl, rfl, rfl, List.prefix_rfl, List.length_pos_of_ne_nil hne, ?_⟩, rfl, rfl⟩
    (fun done flag s hs => hs.returns flag) flags
  exact Nat.zero_le _

/-- Without flags there is one operand, which is compared with the root. -/
theorem verifyMultiProof_no_flags (root : α)
    (hlen : leaves.length + proof.length = ([] : List Bool).length + 1) :
    ∃ b, verifyMultiProofWithBuilder proof [] root leaves builder = .ok b := by
  cases leaves with
  | nil =>
    obtain ⟨r, rfl⟩ := List.length_eq_one_iff.mp ((Nat.zero_add _).symm.trans hlen)
    exact ⟨decide (root = r), rfl⟩
  | cons r leaves =>
    refine ⟨decide (root = r), ?_⟩
    rw [verifyMultiProofWithBuilder, if_neg (not_not.mpr hlen)]
    rfl

/-- What the verifier does after its checks. -/
theorem verifyMultiProof_loop (root : α) (hne : leaves ≠ []) (hflags : flags ≠ [])
    (hlen : leaves.length + proof.length = flags.length + 1) :
    verifyMultiProofWithBuilder proof flags root leaves builder = (do
      let s ← flags.foldlM (rebuildStep proof builder) ⟨leaves, 0, 0⟩
      let rebuiltRoot ← index s.hashes (flags.length + leaves.length - 1)
      pure (decide (root = rebuiltRoot))) := by
  rw [verifyMultiProofWithBuilder, if_neg (not_not.mpr hlen),
    if_neg (List.length_eq_zero_iff.not.mpr hflags), if_neg hne]

/-- **With flags, the verifier** is its recorded loop, whose last hash is compared with the
root. -/
theorem verifyMultiProof_recorded (root : α) (builder : B) (hne : leaves ≠ []) (hflags : flags ≠ [])
    (hlen : leaves.length + proof.length = flags.length + 1) :
    (∃ s r, flags.foldlM (recordStep proof builder) (.start leaves) = .ok s ∧
      s.Within leaves proof flags ∧ s.rebuild.hashes.getLast? = some r ∧
      verifyMultiProofWithBuilder proof flags root leaves builder = .ok (decide (root = r))) ∨
    ∃ e, verifyMultiProofWithBuilder proof flags root leaves builder = Result.err e := by
  have hmap := map_rebuild_foldlM proof builder flags (.start leaves)
  rw [verifyMultiProof_loop root hne hflags hlen]
  rcases returns_foldlM proof builder hne flags with
    ⟨s, hs, hwithin⟩ | ⟨e, he⟩
  · rw [hs] at hmap
    have hlength := hwithin.rebuild.length_hashes
    have hpos := List.length_pos_of_ne_nil hne
    obtain ⟨r, hr⟩ : ∃ r, s.rebuild.hashes[flags.length + leaves.length - 1]? = some r :=
      ⟨_, List.getElem?_eq_getElem (by omega)⟩
    refine Or.inl ⟨s, r, hs, hwithin, ?_, ?_⟩
    · rw [List.getLast?_eq_getElem?, hlength, add_comm, hr]
    · rw [show flags.foldlM (rebuildStep proof builder) ⟨leaves, 0, 0⟩ = .ok s.rebuild from
        hmap.symm, ok_bind, index_eq_ok.mpr hr]
      rfl
  · rw [he] at hmap
    refine Or.inr ⟨e, ?_⟩
    rw [show flags.foldlM (rebuildStep proof builder) ⟨leaves, 0, 0⟩ = Result.err e from
      hmap.symm]
    rfl

/-- **The multi-proof verifier does not panic**: for all operands and flags it returns `Ok` or
`Err`. When it returns `Ok` and there are flags, there are leaves, and it has read every position
of the proof and every position of the hashes but the last, in order and once; the hashes start
with the leaves, and the last one is what the root is compared with. So all flags but as many as
there are proof members are true, one less than there are leaves. -/
theorem multiProof_consumes (proof : List α) (flags : List Bool) (root : α) (leaves : List α)
    (builder : B) :
    ((∃ b, verifyMultiProofWithBuilder proof flags root leaves builder = .ok b) ∨
      ∃ e, verifyMultiProofWithBuilder proof flags root leaves builder = Result.err e) ∧
    ∀ b, verifyMultiProofWithBuilder proof flags root leaves builder = .ok b → flags ≠ [] →
      (∃ s r, flags.foldlM (recordStep proof builder) (.start leaves) = .ok s ∧
        flags.foldlM (rebuildStep proof builder) ⟨leaves, 0, 0⟩ = .ok s.rebuild ∧
        s.proofRead = List.range proof.length ∧
        s.hashesRead = List.range (s.rebuild.hashes.length - 1) ∧
        s.rebuild.hashes.length = leaves.length + flags.length ∧ leaves <+: s.rebuild.hashes ∧
        s.rebuild.hashes.getLast? = some r ∧ b = decide (root = r)) ∧
      flags.count true + 1 = leaves.length ∧ flags.count false = proof.length := by
  by_cases hlen : leaves.length + proof.length = flags.length + 1
  swap
  · have herr : verifyMultiProofWithBuilder proof flags root leaves builder =
        Result.err .InvalidTotalHashes := if_pos hlen
    exact ⟨Or.inr ⟨_, herr⟩, fun b h => absurd (herr.symm.trans h) err_ne_ok⟩
  by_cases hflags : flags = []
  · subst hflags
    exact ⟨Or.inl (verifyMultiProof_no_flags root hlen), fun b _ h => absurd rfl h⟩
  by_cases hne : leaves = []
  · have herr : verifyMultiProofWithBuilder proof flags root leaves builder =
        Result.err .NoLeaves := by
      rw [verifyMultiProofWithBuilder, if_neg (not_not.mpr hlen),
        if_neg (List.length_eq_zero_iff.not.mpr hflags), if_pos hne]
    exact ⟨Or.inr ⟨_, herr⟩, fun b h => absurd (herr.symm.trans h) err_ne_ok⟩
  rcases verifyMultiProof_recorded root builder hne hflags hlen with
    ⟨s, r, hs, hwithin, hlast, hok⟩ | ⟨e, herr⟩
  · refine ⟨Or.inl ⟨_, hok⟩, fun b h _ => ?_⟩
    obtain rfl := Except.ok.inj (hok.symm.trans h)
    have htrue := hwithin.rebuild.count_true_lt
    have hfalse := hwithin.rebuild.count_false_le
    have hcount := List.count_true_add_count_false flags
    have hhashes := hwithin.rebuild.length_hashes
    refine ⟨⟨s, r, hs, ?_, ?_, ?_, hhashes, hwithin.rebuild.isPrefix, hlast, rfl⟩, by omega,
      by omega⟩
    · have hmap := map_rebuild_foldlM proof builder flags (.start leaves)
      rw [hs] at hmap
      exact hmap.symm
    · rw [hwithin.proofRead_eq, hwithin.rebuild.proofPos_eq]
      exact congrArg _ (by omega)
    · rw [hwithin.hashesRead_eq, hwithin.rebuild.hashesPos_eq]
      exact congrArg _ (by omega)
  · exact ⟨Or.inr ⟨e, herr⟩, fun b h => absurd (herr.symm.trans h) err_ne_ok⟩

/-- Two leaves and one proof member. -/
theorem multiProof_consumes_transcript :
    ∃ s : Recorded Bytes, [true, false].foldlM (recordStep [[4]] ()) (.start [[2], [3]]) = .ok s ∧
      s.proofRead = [0] ∧ s.hashesRead = [0, 1, 2] := by
  obtain ⟨-, hreads⟩ := multiProof_consumes [[4]] [true, false]
    (pairHash () (pairHash () [2] [3]) [4] : Bytes) [[2], [3]] ()
  obtain ⟨⟨s, -, hs, -, hproof, hhashes, hlength, -⟩, -⟩ := hreads true (by decide) (by decide)
  rw [hlength] at hhashes
  exact ⟨s, hs, hproof, hhashes⟩

end Merkle

end ContractsStylus
