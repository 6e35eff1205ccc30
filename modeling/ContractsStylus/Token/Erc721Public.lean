import ContractsStylus.Token.Erc721History

/-!
# What an account can do to an ERC-721 token

The calls that an ERC-721 contract with the burnable extension answers to anybody, and what they
may change: tokens that the caller is authorized for, approvals of tokens that it owns or is an
operator for, and its own operators. So what an account holds that gave no approvals stays where
it is.

## Changes

A call succeeds for one of three reasons, and `Change` is that list: a token moves, by somebody who
is authorized for it; an approval of a token is written; or an operator is set. It does not mention
the functions of the interface any more, so what is shown to be left alone by changes is left alone
by every contract whose calls make no others.

`Custody` is of use to a contract that holds tokens and never approves anybody, as the wrapper does.

## Main definitions

* `Erc721.Public`, `Erc721.Layer.execPublic` — the calls
* `Erc721.Change` — what a call may change
* `Erc721.Custody` — an account that gave no approvals

## Main results

* `Erc721.Layer.execPublic_eq_ok` — a call makes a change, and may then ask a receiver
* `Erc721.Custody.change` — the tokens of an account that gave no approvals stay where they are
-/

namespace ContractsStylus

namespace Erc721

/-- The calls of `IErc721` and `IErc721Burnable` that change the storage. -/
inductive Public
  | transferFrom (src dst : Address) (tokenId : U256)
  | safeTransferFrom (src dst : Address) (tokenId : U256)
  | safeTransferFromWithData (src dst : Address) (tokenId : U256) (data : Bytes)
  | approve (dst : Address) (tokenId : U256)
  | setApprovalForAll (operator : Address) (approved : Bool)
  | burn (tokenId : U256)

def Layer.execPublic {σ ε : Type} (L : Layer σ ε) (update : Update σ ε) (env : Env ReceiverCall σ)
    (self : σ) : Public → Result ε σ
  | .transferFrom src dst tokenId => L.transferFrom update env.sender self src dst tokenId
  | .safeTransferFrom src dst tokenId => L.safeTransferFrom update env self src dst tokenId
  | .safeTransferFromWithData src dst tokenId data =>
    L.safeTransferFromWithData update env self src dst tokenId data
  | .approve dst tokenId => L.approve self dst tokenId env.sender true
  | .setApprovalForAll operator approved => L.setApprovalForAll env.sender self operator approved
  | .burn tokenId => Prod.snd <$> update self 0 tokenId env.sender

/-- What a call of `sender` may do to the storage. -/
inductive Change (sender : Address) (e : Erc721) : Erc721 → Prop
  | move (dst : Address) (tokenId : U256)
      (hauth : e._isAuthorized (e.owners tokenId) sender tokenId) :
      Change sender e (e.move (e.owners tokenId) dst tokenId)
  | approve (dst : Address) (tokenId : U256) (hne : e.owners tokenId ≠ 0)
      (hauth : e.owners tokenId = sender ∨ e.isApprovedForAll (e.owners tokenId) sender) :
      Change sender e (e.setTokenApproval tokenId dst)
  | setApprovalForAll (approvals : StorageMap Address Bool) :
      Change sender e { e with
        operatorApprovals := Function.update e.operatorApprovals sender approvals }

/-! ### Calls make changes -/

section Calls

variable {σ ε : Type} {L : Layer σ ε} {env : Env ReceiverCall σ} {s v : σ} {sender : Address}
  {src dst : Address} {tokenId : U256} {data : Bytes} {c : Public}

/-- The layer finds the owner of a token in the storage. -/
def Layer.Plain (L : Layer σ ε) : Prop :=
  ∀ s tokenId, L.ownerOf s tokenId = .ok ((L.erc721 s).owners tokenId)

theorem Layer.Plain.updateBase_eq_ok (hL : L.Plain) {prev auth : Address}
    (h : L.updateBase s dst tokenId auth = .ok (prev, v)) :
    prev = (L.erc721 s).owners tokenId ∧
      (auth ≠ 0 → (L.erc721 s)._isAuthorized prev auth tokenId) ∧
      v = L.setErc721 s ((L.erc721 s).move prev dst tokenId) := by
  obtain ⟨hauth, howner, rfl⟩ := Layer.updateBase_eq_ok.mp h
  rw [hL s tokenId] at howner
  exact ⟨(Except.ok.inj howner).symm, hauth, rfl⟩

theorem Layer.Plain.transferFrom_eq_ok (hL : L.Plain) (hsender : sender ≠ 0)
    (h : L.transferFrom L.updateBase sender s src dst tokenId = .ok v) :
    ∃ e, Change sender (L.erc721 s) e ∧ e.owners tokenId = dst ∧ v = L.setErc721 s e ∧
      (L.erc721 s).owners tokenId = src := by
  obtain ⟨-, hupdate⟩ := Layer.transferFrom_eq_ok.mp h
  obtain ⟨rfl, hauth, rfl⟩ := hL.updateBase_eq_ok hupdate
  refine ⟨_, .move dst tokenId (hauth hsender), ?_, rfl, rfl⟩
  rw [owners_move_apply, if_pos rfl]

/-- The receiver owns the token when it is asked. -/
theorem Layer.Plain.safeTransferFrom_eq_ok (hL : L.Plain) (hsender : env.sender ≠ 0)
    (h : L.safeTransferFromWithData L.updateBase env s src dst tokenId data = .ok v) :
    ∃ e, Change env.sender (L.erc721 s) e ∧ (v = L.setErc721 s e ∨
      ∃ a b, env.receivers a (L.setErc721 s e) = .ok (b, v) ∧
        e.owners a.tokenId = a.receiver) := by
  obtain ⟨u, htransfer, hasked⟩ := bind_eq_ok.mp h
  obtain ⟨e, hchange, howner, rfl, -⟩ := hL.transferFrom_eq_ok hsender htransfer
  refine ⟨e, hchange, ?_⟩
  rcases checkOnReceived_cases hasked with hv | ⟨b, hb⟩
  · exact Or.inl hv
  · exact Or.inr ⟨_, b, hb, howner⟩

theorem Layer.Plain.safeMint_eq_ok (hL : L.Plain)
    (h : L.safeMint L.updateBase env s dst tokenId data = .ok v) :
    (L.erc721 s).owners tokenId = 0 ∧
      (v = L.setErc721 s ((L.erc721 s).move 0 dst tokenId) ∨
        ∃ b, env.receivers ⟨dst, env.sender, 0, tokenId, data⟩
          (L.setErc721 s ((L.erc721 s).move 0 dst tokenId)) = .ok (b, v)) := by
  obtain ⟨u, hmint, hasked⟩ := bind_eq_ok.mp h
  obtain ⟨-, hupdate⟩ := Layer.mint_eq_ok.mp hmint
  obtain ⟨howner, -, rfl⟩ := hL.updateBase_eq_ok hupdate
  exact ⟨howner.symm, checkOnReceived_cases hasked⟩

/-- **A call makes a change, and may then ask a receiver**, which owns the token it is asked
about. -/
theorem Layer.Plain.execPublic_eq_ok (hL : L.Plain) (hsender : env.sender ≠ 0)
    (h : L.execPublic L.updateBase env s c = .ok v) :
    ∃ e, Change env.sender (L.erc721 s) e ∧ (v = L.setErc721 s e ∨
      ∃ a b, env.receivers a (L.setErc721 s e) = .ok (b, v) ∧
        e.owners a.tokenId = a.receiver) := by
  cases c with
  | transferFrom src dst tokenId =>
    obtain ⟨e, hchange, -, hv, -⟩ := hL.transferFrom_eq_ok hsender h
    exact ⟨e, hchange, Or.inl hv⟩
  | safeTransferFrom src dst tokenId => exact hL.safeTransferFrom_eq_ok hsender h
  | safeTransferFromWithData src dst tokenId data => exact hL.safeTransferFrom_eq_ok hsender h
  | approve dst tokenId =>
    rw [execPublic, Layer.approve, if_pos (Or.inl rfl)] at h
    obtain ⟨owner, howner, h⟩ := bind_eq_ok.mp h
    rw [requireOwned, hL, ok_bind] at howner
    obtain ⟨hne, howner⟩ := guard_eq_ok.mp howner
    obtain rfl := Except.ok.inj howner
    obtain ⟨hauth, h⟩ := guard_eq_ok.mp h
    refine ⟨_, .approve dst tokenId hne ?_, Or.inl (Except.ok.inj h).symm⟩
    by_contra hneither
    obtain ⟨howner, hoperator⟩ := not_or.mp hneither
    exact hauth ⟨hsender, howner, hoperator⟩
  | setApprovalForAll operator approved =>
    obtain ⟨e, he, h⟩ := bind_eq_ok.mp h
    obtain rfl := pure_eq_ok.mp h
    obtain ⟨-, he⟩ := guard_eq_ok.mp (mapErr_eq_ok.mp he)
    obtain rfl := Except.ok.inj he
    exact ⟨_, .setApprovalForAll _, Or.inl rfl⟩
  | burn tokenId =>
    obtain ⟨prev, hupdate⟩ := snd_map_eq_ok.mp h
    obtain ⟨rfl, hauth, rfl⟩ := hL.updateBase_eq_ok hupdate
    exact ⟨_, .move 0 tokenId (hauth hsender), Or.inl rfl⟩

end Calls

/-! ### What changes leave alone -/

section Changes

variable {e e' : Erc721} {sender account : Address} {id : U256}

/-- The approvals stay clean, and a token without an owner gets none. -/
theorem Clean.change (h : e.Clean) (hsender : sender ≠ 0) (hchange : Change sender e e') :
    e'.Clean ∧ ∀ id, e.owners id = 0 → e'.owners id = 0 := by
  cases hchange with
  | move dst tokenId hauth =>
    refine ⟨h.move dst tokenId, fun id hid => ?_⟩
    rw [owners_move_apply]
    split
    · rename_i heq
      rw [← heq, hid, h.not_isAuthorized hid] at hauth
      exact absurd hauth Bool.false_ne_true
    · exact hid
  | approve dst tokenId hne hauth =>
    refine ⟨⟨fun id hid => ?_, h.operatorApprovals⟩, fun _ hid => hid⟩
    refine (Function.update_of_ne ?_ ..).trans (h.tokenApprovals id hid)
    rintro rfl
    exact hne hid
  | setApprovalForAll approvals =>
    refine ⟨⟨h.tokenApprovals, fun operator => ?_⟩, fun _ hid => hid⟩
    exact (congrFun (Function.update_of_ne hsender.symm ..) operator).trans
      (h.operatorApprovals operator)

/-- An account that has no operators, and whose tokens are not approved for anybody. -/
structure Custody (account : Address) (e : Erc721) : Prop where
  clean : e.Clean
  operators : ∀ operator, e.operatorApprovals account operator = false
  approvals : ∀ id, e.owners id = account → e.tokenApprovals id = 0

theorem custody_empty (account : Address) : Custody account empty :=
  ⟨clean_empty, fun _ => rfl, fun _ _ => rfl⟩

/-- A move clears the approval of its token. -/
theorem Custody.move (h : Custody account e) (dst : Address) (tokenId : U256) :
    Custody account (e.move (e.owners tokenId) dst tokenId) where
  clean := h.clean.move dst tokenId
  operators := by
    rw [operatorApprovals_move]
    exact h.operators
  approvals id hid := by
    by_cases heq : id = tokenId
    · rw [heq, h.clean.tokenApprovals_move]
    · rw [owners_move_apply, if_neg heq] at hid
      rw [tokenApprovals_move_apply, if_neg fun hcond => heq hcond.2]
      exact h.approvals id hid

/-- Nobody else is authorized for its tokens. -/
theorem Custody.not_isAuthorized (h : Custody account e) (hid : e.owners id = account)
    (hsender : sender ≠ account) : e._isAuthorized account sender id = false := by
  rw [_isAuthorized, decide_eq_false_iff_not]
  rintro ⟨hzero, heq | hoperator | happroved⟩
  · exact hsender heq.symm
  · rw [isApprovedForAll, h.operators] at hoperator
    exact Bool.false_ne_true hoperator
  · rw [_getApproved, h.approvals id hid] at happroved
    exact hzero happroved.symm

/-- **The tokens of an account that gave no approvals stay where they are**, and it gives none
unless it calls the contract itself. -/
theorem Custody.change (h : Custody account e) (hsender : sender ≠ 0) (hne : sender ≠ account)
    (hchange : Change sender e e') :
    Custody account e' ∧ ∀ id, e.owners id = account → e'.owners id = account := by
  have hclean := (h.clean.change hsender hchange).1
  cases hchange with
  | move dst tokenId hauth =>
    refine ⟨h.move dst tokenId, fun id hid => ?_⟩
    rw [owners_move_apply]
    split
    · rename_i heq
      rw [← heq, hid, h.not_isAuthorized hid hne] at hauth
      exact absurd hauth Bool.false_ne_true
    · exact hid
  | approve dst tokenId howner hauth =>
    refine ⟨⟨hclean, h.operators, fun id hid => ?_⟩, fun _ hid => hid⟩
    refine (Function.update_of_ne ?_ ..).trans (h.approvals id hid)
    rintro rfl
    have hid : e.owners id = account := hid
    rw [hid, isApprovedForAll, h.operators] at hauth
    rcases hauth with heq | hfalse
    · exact hne heq.symm
    · exact Bool.false_ne_true hfalse
  | setApprovalForAll approvals =>
    refine ⟨⟨hclean, fun operator => ?_, h.approvals⟩, fun _ hid => hid⟩
    exact (congrFun (Function.update_of_ne hne.symm ..) operator).trans (h.operators operator)

/-- A mint makes a token that there was not. -/
theorem Custody.mint (h : Custody account e) (haccount : account ≠ 0) {dst : Address}
    {tokenId : U256} (howner : e.owners tokenId = 0) :
    Custody account (e.move 0 dst tokenId) ∧
      ∀ id, e.owners id = account → (e.move 0 dst tokenId).owners id = account := by
  refine ⟨?_, fun id hid => ?_⟩
  · have hmove := h.move dst tokenId
    rwa [howner] at hmove
  · rw [owners_move_apply, if_neg, hid]
    rintro rfl
    exact haccount (hid.symm.trans howner)

end Changes

end Erc721

end ContractsStylus
