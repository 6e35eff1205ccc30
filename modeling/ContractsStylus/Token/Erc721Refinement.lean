import ContractsStylus.Library.Runs
import ContractsStylus.Token.Erc721

/-!
# Layers that refine the base contract

A layer may keep the owners of its tokens in another way than the base contract does. When all it
does differently is told by its `_owner_of` and its `_update`, and these do what those of the base
contract do, no other function can tell the two apart.

## What has to be shown

`Refines` asks four things of a relation between two storages: the owners that are answered are the
same, the storage of the base contract differs in its owners only, and the relation is kept when
approvals are written and by `_update`. Every other function is built from these, and the proofs
follow the text of the functions with the rules for sequences and branches; errors are translated by
the layer.

## Main definitions

* `Erc721.Layer.Refines` — `_owner_of` and `_update` do what those of the base contract do

## Main results

* `Erc721.Layer.Refines.exec` — all operations do what those of the base contract do
-/

namespace ContractsStylus

namespace Erc721

namespace Layer

variable {σ ε : Type}

/-- The same error in a layer and in the base contract. -/
theorem matches_err {α β : Type} {f : Error → ε} {R : α → β → Prop} (e : Error) :
    Matches (Revert.map f) R (Result.err (f e)) (Result.err e) :=
  .error (Revert.err e)

/-- The contracts of a layer are related to base contracts in such a way that `_owner_of` and
`_update` cannot tell them apart. Apart from the owners, their storage is the same. -/
structure Refines (L : Layer σ ε) (update : Update σ ε) (R : σ → Erc721 → Prop) : Prop where
  ownerOf : ∀ {s e}, R s e → ∀ tokenId, L.ownerOf s tokenId = .ok (e.owners tokenId)
  erc721 : ∀ {s e}, R s e → ∃ owners, L.erc721 s = { e with owners }
  approvals : ∀ {s e}, R s e → ∀ tokenApprovals operatorApprovals,
    R (L.modify s fun e => { e with tokenApprovals, operatorApprovals })
      { e with tokenApprovals, operatorApprovals }
  step : ∀ {s e}, R s e → ∀ dst tokenId auth,
    Matches (Revert.map L.error) (fun a b => a.1 = b.1 ∧ R a.2 b.2) (update s dst tokenId auth)
      (e._update dst tokenId auth)

namespace Refines

variable {L : Layer σ ε} {update : Update σ ε} {R : σ → Erc721 → Prop} {s : σ} {e : Erc721}
  (h : L.Refines update R) (hR : R s e)

include h hR

theorem requireOwned (tokenId : U256) :
    Matches (Revert.map L.error) Eq (L.requireOwned s tokenId) (e._requireOwned tokenId) := by
  rw [Layer.requireOwned, h.ownerOf hR tokenId]
  exact .ite Iff.rfl (fun _ => matches_err (.NonexistentToken tokenId)) fun _ => .ok rfl

theorem mint (dst : Address) (tokenId : U256) :
    Matches (Revert.map L.error) R (L.mint update s dst tokenId) (e._mint dst tokenId) := by
  refine .ite Iff.rfl (fun _ => matches_err (.InvalidReceiver 0)) fun _ => ?_
  refine (h.step hR dst tokenId 0).bind ?_
  rintro ⟨prev, t⟩ ⟨prev', e'⟩ ⟨hprev, hR'⟩
  exact .ite (by rw [show prev = prev' from hprev]) (fun _ => matches_err (.InvalidSender 0))
    fun _ => .ok hR'

theorem burn (tokenId : U256) :
    Matches (Revert.map L.error) R (L.burn update s tokenId) (e._burn tokenId) := by
  refine (h.step hR 0 tokenId 0).bind ?_
  rintro ⟨prev, t⟩ ⟨prev', e'⟩ ⟨hprev, hR'⟩
  exact .ite (by rw [show prev = prev' from hprev])
    (fun _ => matches_err (.NonexistentToken tokenId)) fun _ => .ok hR'

theorem transferFrom (sender src dst : Address) (tokenId : U256) :
    Matches (Revert.map L.error) R (L.transferFrom update sender s src dst tokenId)
      (e.transferFrom sender src dst tokenId) := by
  refine .ite Iff.rfl (fun _ => matches_err (.InvalidReceiver 0)) fun _ => ?_
  refine (h.step hR dst tokenId sender).bind ?_
  rintro ⟨prev, t⟩ ⟨prev', e'⟩ ⟨hprev, hR'⟩
  obtain rfl : prev = prev' := hprev
  exact .ite Iff.rfl (fun _ => matches_err (.IncorrectOwner src tokenId prev)) fun _ => .ok hR'

theorem approve (dst : Address) (tokenId : U256) (auth : Address) (emitEvent : Bool) :
    Matches (Revert.map L.error) R (L.approve s dst tokenId auth emitEvent)
      (e._approve dst tokenId auth emitEvent) := by
  obtain ⟨owners, howners⟩ := h.erc721 hR
  have hset : R (L.modify s (·.setTokenApproval tokenId dst)) (e.setTokenApproval tokenId dst) := by
    have hset := h.approvals hR (Function.update e.tokenApprovals tokenId dst) e.operatorApprovals
    rw [Layer.modify, howners] at hset ⊢
    exact hset
  refine .ite Iff.rfl (fun _ => (h.requireOwned hR tokenId).bind ?_) fun _ => .ok hset
  rintro owner _ rfl
  refine .ite ?_ (fun _ => matches_err (.InvalidApprover auth)) fun _ => .ok hset
  rw [howners]
  rfl

theorem setApprovalForAll (sender operator : Address) (approved : Bool) :
    Matches (Revert.map L.error) R (L.setApprovalForAll sender s operator approved)
      (e.setApprovalForAll sender operator approved) := by
  obtain ⟨owners, howners⟩ := h.erc721 hR
  have hset := h.approvals hR e.tokenApprovals (Function.update e.operatorApprovals sender
    (Function.update (e.operatorApprovals sender) operator approved))
  rw [Layer.modify, howners] at hset
  rw [Layer.setApprovalForAll, howners]
  refine .bind (R := fun a b => R (L.setErc721 s a) b) ?_ fun _ _ hab => .ok hab
  rw [_setApprovalForAll, _setApprovalForAll]
  by_cases hoperator : operator = 0
  · rw [if_pos hoperator, if_pos hoperator]
    exact matches_err (.InvalidOperator operator)
  · rw [if_neg hoperator, if_neg hoperator]
    exact .ok hset

/-- **Every operation does what it does in the base contract.** -/
theorem exec (tx : Tx) :
    Matches (Revert.map L.error) R (L.exec update s tx) (layer.exec _update e tx) := by
  rcases tx with ⟨sender, op⟩
  cases op with
  | mint dst tokenId => exact h.mint hR dst tokenId
  | burn tokenId => exact h.burn hR tokenId
  | transferFrom src dst tokenId => exact h.transferFrom hR sender src dst tokenId
  | approve dst tokenId => exact h.approve hR dst tokenId sender true
  | setApprovalForAll operator approved => exact h.setApprovalForAll hR sender operator approved

theorem getApproved (tokenId : U256) :
    Matches (Revert.map L.error) Eq (L.getApproved s tokenId) (e.getApproved tokenId) := by
  obtain ⟨owners, howners⟩ := h.erc721 hR
  refine (h.requireOwned hR tokenId).bind fun _ _ _ => .ok ?_
  rw [howners]
  rfl

end Refines

end Layer

end Erc721

end ContractsStylus
