import ContractsStylus.Token.Erc721Runs

/-!
# Histories of an ERC-721 token

Who may transfer a token is decided by what the storage says about owners, operators and
approvals. Here it is related to what happened: a history is the list of the operations that led
to a state, and the storage records of it who was allowed what and is so still.

## What was recorded

The storage keeps one operator bit for two accounts and one approval for a token, and forgets when
they were given. A history does not forget, so predicates on it can say what a user wants to know:
by whom, and that nothing happened since. They are recursive in the history, newest operation first,
with one case for each operation that could have made a difference.

`Recorded` is proved for every history by induction, one operation at a time. A receiver that is
asked in the middle of a call sees a state of which this holds as well, since the storage is written
before.

## Main definitions

* `Erc721.History` — the operations that led to a state
* `Erc721.OperatorIn`, `Erc721.ApprovedSince` — who was allowed what in a history
* `Erc721.Recorded` — the storage agrees with a history
* `Erc721.Seen` — the states that somebody may see, a receiver in the middle of a call included

## Main results

* `Erc721.History.recorded` — the storage agrees with every history
* `Erc721.transfer_authorized` — who can transfer a token, and where an approval comes from
-/

namespace ContractsStylus

namespace Erc721

/-- The operations that led to a state, the last one first. Every message has a sender. -/
inductive History : List Tx → Erc721 → Prop
  | nil : History [] empty
  | cons {l : List Tx} {tx : Tx} {s s' : Erc721} : History l s → tx.sender ≠ 0 →
      layer.exec _update s tx = .ok s' → History (tx :: l) s'

/-- When `owner` last set `operator`, it allowed it. -/
def OperatorIn (owner operator : Address) : List Tx → Prop
  | [] => False
  | tx :: l =>
    match tx.op with
    | .setApprovalForAll operator' approved =>
      if owner = tx.sender ∧ operator = operator' then approved = true
      else OperatorIn owner operator l
    | _ => OperatorIn owner operator l

/-- The last approval of the token is one of `account`, by `owner` or by who was an operator of
`owner` then, and the token was not minted, burned or transferred since. -/
def ApprovedSince (id : U256) (owner account : Address) : List Tx → Prop
  | [] => False
  | tx :: l =>
    match tx.op with
    | .approve dst tokenId =>
      if id = tokenId then dst = account ∧ (tx.sender = owner ∨ OperatorIn owner tx.sender l)
      else ApprovedSince id owner account l
    | op => op.token ≠ some id ∧ ApprovedSince id owner account l

/-- The storage agrees with a history. -/
structure Recorded (l : List Tx) (s : Erc721) : Prop where
  clean : s.Clean
  operators : ∀ owner operator,
    s.operatorApprovals owner operator = true ↔ OperatorIn owner operator l
  approvals : ∀ id, s.tokenApprovals id ≠ 0 →
    ApprovedSince id (s.owners id) (s.tokenApprovals id) l

variable {s s' u v : Erc721} {m : Message} {tx : Tx} {l : List Tx} {owner operator : Address}
  {dst account : Address} {id tokenId : U256}

theorem operatorIn_setApprovalForAll {sender operator' : Address} {approved : Bool} :
    OperatorIn owner operator (⟨sender, .setApprovalForAll operator' approved⟩ :: l) ↔
      if owner = sender ∧ operator = operator' then approved = true
      else OperatorIn owner operator l :=
  Iff.rfl

theorem approvedSince_approve {sender : Address} :
    ApprovedSince id owner account (⟨sender, .approve dst tokenId⟩ :: l) ↔
      if id = tokenId then dst = account ∧ (sender = owner ∨ OperatorIn owner sender l)
      else ApprovedSince id owner account l :=
  Iff.rfl

/-! ### Records -/

theorem recorded_empty : Recorded [] empty where
  clean := clean_empty
  operators owner operator := by simp [OperatorIn, empty]
  approvals id hid := absurd rfl hid

/-- A token has no approval after it was moved. -/
theorem Clean.tokenApprovals_move (h : s.Clean) :
    (s.move (s.owners tokenId) dst tokenId).tokenApprovals tokenId = 0 := by
  rw [tokenApprovals_move_apply]
  split
  · rfl
  · rename_i hcond
    exact h.tokenApprovals tokenId (not_not.mp fun howner => hcond ⟨howner, rfl⟩)

/-- A move ends the approval of its token and keeps the others. -/
theorem Recorded.move (h : Recorded l s) (hclean : s'.Clean)
    (hs' : s' = s.move (s.owners tokenId) dst tokenId)
    (hoperator : ∀ owner operator,
      OperatorIn owner operator (tx :: l) ↔ OperatorIn owner operator l)
    (happroved : ∀ id owner account, ApprovedSince id owner account (tx :: l) ↔
      some tokenId ≠ some id ∧ ApprovedSince id owner account l) :
    Recorded (tx :: l) s' := by
  subst hs'
  refine ⟨hclean, fun owner operator => ?_, fun id hid => ?_⟩
  · rw [operatorApprovals_move, hoperator]
    exact h.operators owner operator
  · have hne : id ≠ tokenId := by
      rintro rfl
      exact hid h.clean.tokenApprovals_move
    rw [tokenApprovals_move_apply, if_neg fun hcond => hne hcond.2] at hid ⊢
    rw [owners_move_apply, if_neg hne, happroved]
    exact ⟨fun heq => hne (Option.some.inj heq).symm, h.approvals id hid⟩

/-- **The storage keeps a record of every operation.** -/
theorem Recorded.exec (h : Recorded l s) (hsender : tx.sender ≠ 0)
    (hok : layer.exec _update s tx = .ok s') : Recorded (tx :: l) s' := by
  have hclean := h.clean.exec hsender hok
  have hcases := exec_cases hok
  rcases tx with ⟨sender, op⟩
  cases op with
  | mint dst tokenId =>
    obtain ⟨howner, hs'⟩ := hcases
    rw [← howner] at hs'
    exact h.move hclean hs' (fun _ _ => Iff.rfl) fun _ _ _ => Iff.rfl
  | burn tokenId =>
    exact h.move hclean hcases.2 (fun _ _ => Iff.rfl) fun _ _ _ => Iff.rfl
  | transferFrom src dst tokenId =>
    obtain ⟨rfl, -, hs'⟩ := hcases
    exact h.move hclean hs' (fun _ _ => Iff.rfl) fun _ _ _ => Iff.rfl
  | approve dst tokenId =>
    obtain ⟨howner, hauth, rfl⟩ := hcases
    refine ⟨hclean, h.operators, fun id hid => ?_⟩
    rw [approvedSince_approve]
    have happroval : (s.setTokenApproval tokenId dst).tokenApprovals id =
        if id = tokenId then dst else s.tokenApprovals id := Function.update_apply ..
    rw [happroval] at hid ⊢
    split
    · rename_i heq
      subst heq
      refine ⟨rfl, ?_⟩
      rcases hauth hsender with hsame | hoperator
      · exact Or.inl hsame.symm
      · exact Or.inr ((h.operators ..).mp hoperator)
    · rename_i heq
      rw [if_neg heq] at hid
      exact h.approvals id hid
  | setApprovalForAll operator approved =>
    obtain rfl := hcases
    refine ⟨hclean, fun owner operator' => ?_, fun id hid => ?_⟩
    · rw [operatorIn_setApprovalForAll, ← h.operators]
      simp only [update_update_apply]
      split <;> rfl
    · exact ⟨by simp [Op.token], h.approvals id hid⟩

theorem History.recorded (h : History l s) : Recorded l s := by
  induction h with
  | nil => exact recorded_empty
  | cons _ hsender hok ih => exact ih.exec hsender hok

/-! ### Runs -/

/-- A message has a sender. -/
def Sent (_ : Erc721) (m : Message) : Prop := m.sender ≠ 0

/-- The states that somebody may see: after a run of calls, and, when a receiver is asked in the
middle of one, after what the receiver has called by then. -/
inductive Seen : Erc721 → Prop
  | run {s : Erc721} : Reentrant.Run execCall Sent empty s → Seen s
  | asked {s u v : Erc721} {m : Message} : Seen s → Sent s m →
      layer.exec _update s m.body = .ok u → Reentrant.Run execCall Sent u v → Seen v

theorem History.message (h : History l s) (hm : Sent s m)
    (hbody : layer.exec _update s m.body = .ok u) : History (m.body :: l) u :=
  h.cons hm hbody

/-- Every state that is seen has a history. -/
theorem Seen.exists_history (h : Seen s) : ∃ l, History l s := by
  have hrun {s v : Erc721} (hv : Reentrant.Run execCall Sent s v) :
      (∃ l, History l s) → ∃ l, History l v :=
    run_invariant (fun s m u (hs : ∃ l, History l s) hm hbody =>
      hs.imp' (m.body :: ·) fun l hl => hl.message hm hbody) hv
  induction h with
  | run hs => exact hrun hs ⟨[], .nil⟩
  | asked _ hm hbody hv ih =>
    obtain ⟨l, hl⟩ := ih
    exact hrun hv ⟨_, hl.message hm hbody⟩

/-- What is recorded of a token's transfer. -/
theorem Recorded.transfer {src : Address} (h : Recorded l s) (hm : m.sender ≠ 0)
    (hbody : m.call.body = .transferFrom src dst id)
    (hok : layer.exec _update s m.body = .ok u) :
    s.owners id = src ∧ src ≠ 0 ∧
      (m.sender = src ∨ OperatorIn src m.sender l ∨ ApprovedSince id src m.sender l) := by
  have hcases := exec_cases hok
  rw [Message.body, hbody] at hcases
  obtain ⟨rfl, hauth, -⟩ := hcases
  have hauth := hauth hm
  have howner : s.owners id ≠ 0 := by
    intro hzero
    rw [hzero, h.clean.not_isAuthorized hzero] at hauth
    exact absurd hauth Bool.false_ne_true
  refine ⟨rfl, howner, ?_⟩
  rw [_isAuthorized, decide_eq_true_iff] at hauth
  obtain ⟨-, hsame | hoperator | happroved⟩ := hauth
  · exact Or.inl hsame.symm
  · exact Or.inr (Or.inl ((h.operators ..).mp hoperator))
  · have hne : s.tokenApprovals id ≠ 0 := by
      intro hzero
      exact hm (happroved.symm.trans hzero)
    have hrecord := h.approvals id hne
    rw [_getApproved] at happroved
    rw [happroved] at hrecord
    exact Or.inr (Or.inr hrecord)

/-- **Who can transfer a token, and where approvals come from.** A state that is seen has a
history, and whatever history it has: a transfer that succeeds takes the token from its owner,
and is sent by the owner, by an operator of the owner, or by who was approved for the token, by
the owner or an operator of it, since the token was last minted or transferred. A token with an
approval exists, and the approval was given since then. -/
theorem transfer_authorized (h : Seen s) : (∃ l, History l s) ∧ ∀ l, History l s →
    (∀ m receivers v src dst id, m.sender ≠ 0 → m.call.body = .transferFrom src dst id →
      execCall m receivers s = .ok v → s.owners id = src ∧ src ≠ 0 ∧
        (m.sender = src ∨ OperatorIn src m.sender l ∨ ApprovedSince id src m.sender l)) ∧
    ∀ id, s.tokenApprovals id ≠ 0 → s.owners id ≠ 0 ∧
      ApprovedSince id (s.owners id) (s.tokenApprovals id) l := by
  refine ⟨h.exists_history, fun l hl => ⟨?_, ?_⟩⟩
  · intro m receivers v src dst id hm hbody hcall
    obtain ⟨u, hok, -⟩ := execCall_eq_ok hcall
    exact hl.recorded.transfer hm hbody hok
  · intro id hid
    have hrecorded := hl.recorded
    exact ⟨fun howner => hid (hrecorded.clean.tokenApprovals id howner), hrecorded.approvals id hid⟩

/-- Account `1` is minted token `5` and approves account `2`, which transfers it. -/
theorem transfer_authorized_approved : ∃ s l v, Seen s ∧ History l s ∧
    execCall ⟨2, fun _ => false, .safeTransferFrom 1 3 5⟩ accepting s = .ok v ∧
    s.owners 5 = 1 ∧ (2 = (1 : Address) ∨ OperatorIn 1 2 l ∨ ApprovedSince 5 1 2 l) := by
  have hmint : execCall ⟨4, fun _ => false, .plain (.mint 1 5)⟩ accepting empty =
      .ok (empty.move 0 1 5) := rfl
  have happrove : execCall ⟨1, fun _ => false, .plain (.approve 2 5)⟩ accepting
      (empty.move 0 1 5) = .ok ((empty.move 0 1 5).setTokenApproval 5 2) := rfl
  have hs : Seen ((empty.move 0 1 5).setTokenApproval 5 2) :=
    .run (call_accepting (call_accepting (.refl empty) (by simp [Sent]) hmint) (by simp [Sent])
      happrove)
  have hl : History [⟨1, .approve 2 5⟩, ⟨4, .mint 1 5⟩]
      ((empty.move 0 1 5).setTokenApproval 5 2) :=
    .cons (.cons .nil (by decide) hmint) (by decide) happrove
  obtain ⟨-, hauthorized⟩ := transfer_authorized hs
  obtain ⟨htransfer, -⟩ := hauthorized _ hl
  obtain ⟨howner, -, hallowed⟩ := htransfer ⟨2, fun _ => false, .safeTransferFrom 1 3 5⟩
    accepting _ 1 3 5 (by decide) rfl rfl
  exact ⟨_, _, _, hs, hl, rfl, howner, hallowed⟩

end Erc721

end ContractsStylus
