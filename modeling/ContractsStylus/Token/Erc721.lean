import ContractsStylus.Token.Receiver

/-!
# ERC-721

The non-fungible token: an owner for each token id, a balance for each account, approvals for
single tokens and for operators.

The consecutive extension repeats almost every function of the base contract, because it finds
the owner of a token in another way and wraps the errors. These functions are written once here,
over a `Layer`: a contract that keeps an ERC-721 storage somewhere. The base contract is the
layer that is nothing but its storage.

## Updates

`_update` answers who the owner was, and checks that somebody may do this if it is told whom to
check. The functions built on it compare that answer with what they expected, after the fact, and
fail if it is another one: the write is undone then, so it does not matter that it was made. For a
layer `_update` is an argument of these functions and not a field, because the contracts that
compose extensions have one of their own as well.

Balances wrap, as they do in the source. What they have to do with the tokens is in the module on
runs.

## Main definitions

* `Erc721`, `Erc721.Error` — the storage and the errors
* `Erc721.Layer` — a contract over an ERC-721 storage
* `Erc721.Layer.updateBase` — the one function that changes owners
* `Erc721.Layer.mint`, `burn`, `transferFrom`, … — the functions over an `_update`

## Main results

* `Erc721.Layer.updateBase_eq_ok` — when `_update` succeeds, and with what
-/

namespace ContractsStylus

/-- State of an ERC-721 token. -/
structure Erc721 where
  /-- The owner of each token, `Address::ZERO` for none. -/
  owners : StorageMap U256 Address
  balances : StorageMap Address U256
  /-- The account approved for each token. -/
  tokenApprovals : StorageMap U256 Address
  /-- Operator approvals of each owner. -/
  operatorApprovals : StorageMap Address (StorageMap Address Bool)

namespace Erc721

inductive Error
  | InvalidOwner (owner : Address)
  | NonexistentToken (tokenId : U256)
  | IncorrectOwner (sender : Address) (tokenId : U256) (owner : Address)
  | InvalidSender (sender : Address)
  | InvalidReceiver (receiver : Address)
  /-- The receiver's own reason, as bytes. -/
  | InvalidReceiverWithReason (reason : Bytes)
  | InsufficientApproval (operator : Address) (tokenId : U256)
  | InvalidApprover (approver : Address)
  | InvalidOperator (operator : Address)
  deriving DecidableEq, Repr

/-- The contract after deployment. -/
def empty : Erc721 := ⟨fun _ => 0, fun _ => 0, fun _ => 0, fun _ _ => false⟩

/-! ### Functions of the storage alone

These look at nothing but the four maps, so the consecutive extension uses them as they are. -/

def balanceOf (self : Erc721) (owner : Address) : Result Error U256 :=
  if owner = 0 then .err (.InvalidOwner 0) else .ok (self.balances owner)

def _ownerOf (self : Erc721) (tokenId : U256) : Address := self.owners tokenId

def _getApproved (self : Erc721) (tokenId : U256) : Address := self.tokenApprovals tokenId

def isApprovedForAll (self : Erc721) (owner operator : Address) : Bool :=
  self.operatorApprovals owner operator

def _isAuthorized (self : Erc721) (owner spender : Address) (tokenId : U256) : Bool :=
  spender ≠ 0 ∧ (owner = spender ∨ self.isApprovedForAll owner spender ∨
    self._getApproved tokenId = spender)

def _checkAuthorized (self : Erc721) (owner operator : Address) (tokenId : U256) :
    Result Error Unit :=
  if self._isAuthorized owner operator tokenId then .ok ()
  else if owner = 0 then .err (.NonexistentToken tokenId)
  else .err (.InsufficientApproval operator tokenId)

def _increaseBalance (self : Erc721) (account : Address) (value : U128) : Erc721 :=
  { self with
    balances := Function.update self.balances account
      (self.balances account + value.setWidth 256) }

def _setApprovalForAll (self : Erc721) (owner operator : Address) (approved : Bool) :
    Result Error Erc721 :=
  if operator = 0 then .err (.InvalidOperator operator)
  else .ok { self with
    operatorApprovals := Function.update self.operatorApprovals owner
      (Function.update (self.operatorApprovals owner) operator approved) }

/-- `self.owners.setter(token_id).set(owner)`. -/
def setOwner (self : Erc721) (tokenId : U256) (owner : Address) : Erc721 :=
  { self with owners := Function.update self.owners tokenId owner }

/-- `self.balances.setter(account).set(balance)`. -/
def setBalance (self : Erc721) (account : Address) (balance : U256) : Erc721 :=
  { self with balances := Function.update self.balances account balance }

/-- `self.token_approvals.setter(token_id).set(to)`. -/
def setTokenApproval (self : Erc721) (tokenId : U256) (approved : Address) : Erc721 :=
  { self with tokenApprovals := Function.update self.tokenApprovals tokenId approved }

/-! ### Functions of a layer

What a layer adds is its own state around the storage, how it finds the owner of a token, and how it
wraps the errors of the base contract. The laws say that the storage of a layer is a field like any
other. -/

/-- A contract `σ` over an ERC-721 storage, with errors `ε`. -/
structure Layer (σ ε : Type) where
  /-- The storage. -/
  erc721 : σ → Erc721
  setErc721 : σ → Erc721 → σ
  erc721_set : ∀ self e, erc721 (setErc721 self e) = e
  set_set : ∀ self e e', setErc721 (setErc721 self e) e' = setErc721 self e'
  set_erc721 : ∀ self, setErc721 self (erc721 self) = self
  /-- `_owner_of`. -/
  ownerOf : σ → U256 → Result ε Address
  /-- The errors of the base contract, as errors of this one. -/
  error : Error → ε

/-- `_update(to, token_id, auth)` of a contract, with the previous owner. -/
abbrev Update (σ ε : Type) := σ → Address → U256 → Address → Result ε (Address × σ)

/-- A call of `on_erc721_received`. -/
structure ReceiverCall where
  receiver : Address
  operator : Address
  src : Address
  tokenId : U256
  data : Bytes

def RECEIVER_FN_SELECTOR : B32 := 0x150b7a02

namespace Layer

variable {σ ε : Type} (L : Layer σ ε)

/-- A change of the storage. -/
def modify (self : σ) (f : Erc721 → Erc721) : σ := L.setErc721 self (f (L.erc721 self))

def requireOwned (self : σ) (tokenId : U256) : Result ε Address := do
  let owner ← L.ownerOf self tokenId
  if owner = 0 then .err (L.error (.NonexistentToken tokenId)) else .ok owner

def approve (self : σ) (dst : Address) (tokenId : U256) (auth : Address) (emitEvent : Bool) :
    Result ε σ := do
  -- avoid reading the owner unless necessary
  if emitEvent ∨ auth ≠ 0 then
    let owner ← L.requireOwned self tokenId
    if auth ≠ 0 ∧ owner ≠ auth ∧ ¬(L.erc721 self).isApprovedForAll owner auth then
      .err (L.error (.InvalidApprover auth))
    else .ok (L.modify self (·.setTokenApproval tokenId dst))
  else .ok (L.modify self (·.setTokenApproval tokenId dst))

def updateBase (self : σ) (dst : Address) (tokenId : U256) (auth : Address) :
    Result ε (Address × σ) := do
  let src ← L.ownerOf self tokenId
  -- perform (optional) operator check
  (if auth ≠ 0 then ((L.erc721 self)._checkAuthorized src auth tokenId).mapErr L.error
    else .ok ())
  -- execute the update
  let self ← (if src ≠ 0 then do
      let self ← L.approve self 0 tokenId 0 false
      pure (L.modify self fun e => e.setBalance src (e.balances src - 1))
    else .ok self)
  let self := if dst ≠ 0 then L.modify self fun e => e.setBalance dst (e.balances dst + 1)
    else self
  pure (src, L.modify self (·.setOwner tokenId dst))

/-- Ask the receiver, with an error of the base contract. -/
def checkOnErc721Received (env : Env ReceiverCall σ) (self : σ) (operator src dst : Address)
    (tokenId : U256) (data : Bytes) : Result ε σ :=
  checkOnReceived env self dst ⟨dst, operator, src, tokenId, data⟩ RECEIVER_FN_SELECTOR
    (fun receiver => L.error (.InvalidReceiver receiver))
    (fun reason => L.error (.InvalidReceiverWithReason reason))

/-! The functions over `_update`. -/

variable (update : Update σ ε)

def mint (self : σ) (dst : Address) (tokenId : U256) : Result ε σ :=
  if dst = 0 then .err (L.error (.InvalidReceiver 0))
  else do
    let (previousOwner, self) ← update self dst tokenId 0
    if previousOwner ≠ 0 then .err (L.error (.InvalidSender 0)) else .ok self

def safeMint (env : Env ReceiverCall σ) (self : σ) (dst : Address) (tokenId : U256)
    (data : Bytes) : Result ε σ := do
  let self ← L.mint update self dst tokenId
  L.checkOnErc721Received env self env.sender 0 dst tokenId data

def burn (self : σ) (tokenId : U256) : Result ε σ := do
  let (previousOwner, self) ← update self 0 tokenId 0
  if previousOwner = 0 then .err (L.error (.NonexistentToken tokenId)) else .ok self

def transfer (self : σ) (src dst : Address) (tokenId : U256) : Result ε σ :=
  if dst = 0 then .err (L.error (.InvalidReceiver 0))
  else do
    let (previousOwner, self) ← update self dst tokenId 0
    if previousOwner = 0 then .err (L.error (.NonexistentToken tokenId))
    else if previousOwner ≠ src then
      .err (L.error (.IncorrectOwner src tokenId previousOwner))
    else .ok self

def safeTransfer (env : Env ReceiverCall σ) (self : σ) (src dst : Address) (tokenId : U256)
    (data : Bytes) : Result ε σ := do
  let self ← L.transfer update self src dst tokenId
  L.checkOnErc721Received env self env.sender src dst tokenId data

def transferFrom (sender : Address) (self : σ) (src dst : Address) (tokenId : U256) :
    Result ε σ :=
  if dst = 0 then .err (L.error (.InvalidReceiver 0))
  else do
    let (previousOwner, self) ← update self dst tokenId sender
    if previousOwner ≠ src then
      .err (L.error (.IncorrectOwner src tokenId previousOwner))
    else .ok self

def safeTransferFromWithData (env : Env ReceiverCall σ) (self : σ) (src dst : Address)
    (tokenId : U256) (data : Bytes) : Result ε σ := do
  let self ← L.transferFrom update env.sender self src dst tokenId
  L.checkOnErc721Received env self env.sender src dst tokenId data

def safeTransferFrom (env : Env ReceiverCall σ) (self : σ) (src dst : Address)
    (tokenId : U256) : Result ε σ :=
  L.safeTransferFromWithData update env self src dst tokenId []

def setApprovalForAll (sender : Address) (self : σ) (operator : Address) (approved : Bool) :
    Result ε σ := do
  let e ← ((L.erc721 self)._setApprovalForAll sender operator approved).mapErr L.error
  pure (L.setErc721 self e)

def getApproved (self : σ) (tokenId : U256) : Result ε Address := do
  let _ ← L.requireOwned self tokenId
  pure ((L.erc721 self)._getApproved tokenId)

end Layer

/-- Operations that ask no receiver. -/
inductive Op
  | mint (dst : Address) (tokenId : U256)
  | burn (tokenId : U256)
  | transferFrom (src dst : Address) (tokenId : U256)
  | approve (dst : Address) (tokenId : U256)
  | setApprovalForAll (operator : Address) (approved : Bool)

/-- The token that an operation moves. -/
def Op.token : Op → Option U256
  | mint _ tokenId => some tokenId
  | burn tokenId => some tokenId
  | transferFrom _ _ tokenId => some tokenId
  | approve _ _ => none
  | setApprovalForAll _ _ => none

/-- An operation with its sender. -/
structure Tx where
  sender : Address
  op : Op

/-- One operation. -/
def Layer.exec {σ ε : Type} (L : Layer σ ε) (update : Update σ ε) (self : σ) (tx : Tx) :
    Result ε σ :=
  match tx.op with
  | .mint dst tokenId => L.mint update self dst tokenId
  | .burn tokenId => L.burn update self tokenId
  | .transferFrom src dst tokenId => L.transferFrom update tx.sender self src dst tokenId
  | .approve dst tokenId => L.approve self dst tokenId tx.sender true
  | .setApprovalForAll operator approved => L.setApprovalForAll tx.sender self operator approved

/-! ### What a call that succeeds has done

Every function that moves a token comes down to one `move`, from whoever was the owner. The lemmas
on `_mint`, `_burn` and `transfer_from` are for any `_update`, so they hold of the contracts that
compose extensions too. -/

/-- The storage after `tokenId` went from `src` to `dst`. -/
def move (self : Erc721) (src dst : Address) (tokenId : U256) : Erc721 :=
  let self := if src ≠ 0 then
      let self := self.setTokenApproval tokenId 0
      self.setBalance src (self.balances src - 1)
    else self
  let self := if dst ≠ 0 then self.setBalance dst (self.balances dst + 1) else self
  self.setOwner tokenId dst

@[simp] theorem owners_move (self : Erc721) (src dst : Address) (tokenId : U256) :
    (self.move src dst tokenId).owners = Function.update self.owners tokenId dst := by
  rw [move]
  split <;> split <;> rfl

theorem owners_move_apply (self : Erc721) (src dst : Address) (tokenId id : U256) :
    (self.move src dst tokenId).owners id = if id = tokenId then dst else self.owners id := by
  rw [owners_move, Function.update_apply]

theorem tokenApprovals_move_apply (self : Erc721) (src dst : Address) (tokenId id : U256) :
    (self.move src dst tokenId).tokenApprovals id =
      if src ≠ 0 ∧ id = tokenId then 0 else self.tokenApprovals id := by
  rw [move]
  by_cases hsrc : src = 0
  · rw [if_neg (not_not.mpr hsrc), if_neg (c := src ≠ 0 ∧ id = tokenId) fun h => h.1 hsrc]
    split <;> rfl
  · rw [if_pos hsrc]
    simp only [hsrc, ne_eq, not_false_eq_true, true_and, ← Function.update_apply]
    split <;> rfl

@[simp] theorem operatorApprovals_move (self : Erc721) (src dst : Address) (tokenId : U256) :
    (self.move src dst tokenId).operatorApprovals = self.operatorApprovals := by
  rw [move]
  split <;> split <;> rfl

/-- Of two different accounts, the one that a token leaves counts one token less. -/
theorem balances_move_src (self : Erc721) {src dst : Address} (tokenId : U256) (hsrc : src ≠ 0)
    (hne : src ≠ dst) : (self.move src dst tokenId).balances src = self.balances src - 1 := by
  rw [move, if_pos hsrc]
  split <;> simp [setOwner, setBalance, setTokenApproval, hne]

theorem balances_move_dst (self : Erc721) {src dst : Address} (tokenId : U256) (hdst : dst ≠ 0)
    (hne : src ≠ dst) : (self.move src dst tokenId).balances dst = self.balances dst + 1 := by
  rw [move, if_pos hdst]
  split <;> simp [setOwner, setBalance, setTokenApproval, hne.symm]

theorem balances_move_of_ne (self : Erc721) {src dst account : Address} (tokenId : U256)
    (hsrc : account ≠ src) (hdst : account ≠ dst) :
    (self.move src dst tokenId).balances account = self.balances account := by
  rw [move]
  split <;> split <;> simp [setOwner, setBalance, setTokenApproval, hsrc, hdst]

theorem balances_move_self (self : Erc721) (account : Address) (tokenId : U256) :
    (self.move account account tokenId).balances = self.balances := by
  rw [move]
  split
  · simp [setOwner, setBalance, setTokenApproval]
  · rfl

namespace Layer

variable {σ ε : Type} {L : Layer σ ε} {update : Update σ ε} {s s' : σ}

theorem erc721_modify (f : Erc721 → Erc721) : L.erc721 (L.modify s f) = f (L.erc721 s) :=
  L.erc721_set _ _

theorem modify_modify (f g : Erc721 → Erc721) :
    L.modify (L.modify s f) g = L.modify s fun e => g (f e) := by
  rw [modify, erc721_modify, modify, L.set_set, modify]

/-- Clearing an approval is not authorized. -/
theorem approve_clear (tokenId : U256) :
    L.approve s 0 tokenId 0 false = .ok (L.modify s (·.setTokenApproval tokenId 0)) := by
  simp [approve]

/-- **`_update` in closed form**: a check, and a move from whoever was the owner. -/
theorem updateBase_eq {src : Address} {tokenId : U256} (howner : L.ownerOf s tokenId = .ok src)
    (dst auth : Address) :
    L.updateBase s dst tokenId auth = (do
      (if auth ≠ 0 then ((L.erc721 s)._checkAuthorized src auth tokenId).mapErr L.error
        else .ok ())
      .ok (src, L.modify s (·.move src dst tokenId))) := by
  rw [updateBase, howner, ok_bind]
  congr 1
  funext _
  rcases eq_or_ne src 0 with hsrc | hsrc <;> rcases eq_or_ne dst 0 with hdst | hdst <;>
    simp only [hsrc, hdst, ne_eq, not_true_eq_false, not_false_eq_true, if_true, if_false, ok_bind,
      pure_bind, approve_clear, modify_modify, move] <;>
    rfl

theorem updateBase_eq_ok {dst prev : Address} {tokenId : U256} {auth : Address} :
    L.updateBase s dst tokenId auth = .ok (prev, s') ↔
      (auth ≠ 0 → (L.erc721 s)._isAuthorized prev auth tokenId) ∧
        L.ownerOf s tokenId = .ok prev ∧ L.modify s (·.move prev dst tokenId) = s' := by
  constructor
  · intro h
    obtain ⟨src, howner, -⟩ := bind_eq_ok.mp h
    rw [updateBase_eq howner, bind_eq_ok] at h
    obtain ⟨_, hcheck, h⟩ := h
    obtain ⟨rfl, hs'⟩ := Prod.mk.inj (Except.ok.inj h)
    refine ⟨fun hauth => ?_, howner, hs'⟩
    rw [if_pos hauth, mapErr_eq_ok, _checkAuthorized] at hcheck
    split at hcheck
    · assumption
    · split at hcheck <;> exact absurd hcheck err_ne_ok
  · rintro ⟨hcheck, howner, rfl⟩
    rw [updateBase_eq howner, bind_eq_ok]
    refine ⟨(), ?_, rfl⟩
    split
    · rename_i hauth
      rw [mapErr_eq_ok, _checkAuthorized, if_pos (hcheck hauth)]
    · rfl

theorem mint_eq_ok {dst : Address} {tokenId : U256} :
    L.mint update s dst tokenId = .ok s' ↔ dst ≠ 0 ∧ update s dst tokenId 0 = .ok (0, s') := by
  simp [mint]

theorem burn_eq_ok {tokenId : U256} :
    L.burn update s tokenId = .ok s' ↔ ∃ prev ≠ 0, update s 0 tokenId 0 = .ok (prev, s') := by
  simp [burn, and_comm]

theorem transferFrom_eq_ok {sender src dst : Address} {tokenId : U256} :
    L.transferFrom update sender s src dst tokenId = .ok s' ↔
      dst ≠ 0 ∧ update s dst tokenId sender = .ok (src, s') := by
  simp [transferFrom]

theorem approve_eq_ok {dst auth : Address} {tokenId : U256} {emitEvent : Bool}
    (h : L.approve s dst tokenId auth emitEvent = .ok s') :
    s' = L.modify s (·.setTokenApproval tokenId dst) := by
  rw [approve] at h
  split at h
  · obtain ⟨owner, -, h⟩ := bind_eq_ok.mp h
    exact (Except.ok.inj (guard_eq_ok.mp h).2).symm
  · exact (Except.ok.inj h).symm

end Layer

/-! ### The base contract -/

/-- The layer that is nothing but its storage. -/
def layer : Layer Erc721 Error where
  erc721 self := self
  setErc721 _ e := e
  erc721_set _ _ := rfl
  set_set _ _ _ := rfl
  set_erc721 _ := rfl
  ownerOf self tokenId := .ok (self._ownerOf tokenId)
  error e := e

def _requireOwned := layer.requireOwned
def _approve := layer.approve
def _update := layer.updateBase
def _checkOnErc721Received := layer.checkOnErc721Received
def _mint := layer.mint _update
def _safeMint := layer.safeMint _update
def _burn := layer.burn _update
def _transfer := layer.transfer _update
def _safeTransfer := layer.safeTransfer _update
def ownerOf := layer.requireOwned
def transferFrom := layer.transferFrom _update
def safeTransferFromWithData := layer.safeTransferFromWithData _update
def safeTransferFrom := layer.safeTransferFrom _update
def setApprovalForAll := layer.setApprovalForAll
def getApproved := layer.getApproved

def approve (sender : Address) (self : Erc721) (dst : Address) (tokenId : U256) :
    Result Error Erc721 :=
  self._approve dst tokenId sender true

/-- `burn` of the burnable extension. -/
def burn (sender : Address) (self : Erc721) (tokenId : U256) : Result Error Erc721 := do
  let (_, self) ← self._update 0 tokenId sender
  pure self

/-! ### Tokens without an owner

The source asks whether the owner of a token has approved somebody, also where the token has no
owner. That nobody is let in this way needs an invariant of runs: a burn clears the approval of the
token, and the zero address calls nothing. -/

variable {e e' : Erc721} {tx : Tx}

/-- Tokens without an owner are not approved for anybody, and the zero address has no operator. -/
structure Clean (e : Erc721) : Prop where
  tokenApprovals : ∀ id, e.owners id = 0 → e.tokenApprovals id = 0
  operatorApprovals : ∀ operator, e.operatorApprovals 0 operator = false

theorem clean_empty : empty.Clean := ⟨fun _ _ => rfl, fun _ => rfl⟩

theorem Clean.move (h : e.Clean) (dst : Address) (tokenId : U256) :
    (e.move (e.owners tokenId) dst tokenId).Clean where
  tokenApprovals id hid := by
    rw [owners_move_apply] at hid
    rw [tokenApprovals_move_apply]
    split
    · rfl
    · rename_i hcond
      by_cases heq : id = tokenId
      · exact h.tokenApprovals id (heq ▸ not_not.mp fun howner => hcond ⟨howner, heq⟩)
      · rw [if_neg heq] at hid
        exact h.tokenApprovals id hid
  operatorApprovals := by
    rw [operatorApprovals_move]
    exact h.operatorApprovals

/-- Nobody may move a token without an owner. -/
theorem Clean.not_isAuthorized (h : e.Clean) {tokenId : U256} (hid : e.owners tokenId = 0)
    (spender : Address) : e._isAuthorized 0 spender tokenId = false := by
  rw [_isAuthorized, decide_eq_false_iff_not]
  rintro ⟨hspender, hzero | hoperator | happroved⟩
  · exact hspender hzero.symm
  · rw [isApprovedForAll, h.operatorApprovals] at hoperator
    exact Bool.false_ne_true hoperator
  · rw [_getApproved, h.tokenApprovals tokenId hid] at happroved
    exact hspender happroved.symm

/-- **What an operation of the base contract has found and done.** -/
theorem exec_cases (hok : layer.exec _update e tx = .ok e') :
    match tx.op with
    | .mint dst tokenId => e.owners tokenId = 0 ∧ e' = e.move 0 dst tokenId
    | .burn tokenId => e.owners tokenId ≠ 0 ∧ e' = e.move (e.owners tokenId) 0 tokenId
    | .transferFrom src dst tokenId =>
      e.owners tokenId = src ∧ (tx.sender ≠ 0 → e._isAuthorized src tx.sender tokenId) ∧
        e' = e.move src dst tokenId
    | .approve dst tokenId =>
      e.owners tokenId ≠ 0 ∧ (tx.sender ≠ 0 → e.owners tokenId = tx.sender ∨
        e.isApprovedForAll (e.owners tokenId) tx.sender) ∧ e' = e.setTokenApproval tokenId dst
    | .setApprovalForAll operator approved => e' = { e with
        operatorApprovals := Function.update e.operatorApprovals tx.sender
          (Function.update (e.operatorApprovals tx.sender) operator approved) } := by
  rcases tx with ⟨sender, op⟩
  cases op with
  | mint dst tokenId =>
    obtain ⟨-, hupdate⟩ := Layer.mint_eq_ok.mp hok
    obtain ⟨-, howner, rfl⟩ := Layer.updateBase_eq_ok.mp hupdate
    exact ⟨Except.ok.inj howner, rfl⟩
  | burn tokenId =>
    obtain ⟨prev, hprev, hupdate⟩ := Layer.burn_eq_ok.mp hok
    obtain ⟨-, howner, rfl⟩ := Layer.updateBase_eq_ok.mp hupdate
    obtain rfl := Except.ok.inj howner
    exact ⟨hprev, rfl⟩
  | transferFrom src dst tokenId =>
    obtain ⟨-, hupdate⟩ := Layer.transferFrom_eq_ok.mp hok
    obtain ⟨hauth, howner, rfl⟩ := Layer.updateBase_eq_ok.mp hupdate
    exact ⟨Except.ok.inj howner, hauth, rfl⟩
  | approve dst tokenId =>
    obtain ⟨owner, howner, h⟩ := bind_eq_ok.mp hok
    obtain ⟨hne, howner⟩ := guard_eq_ok.mp howner
    obtain rfl := Except.ok.inj howner
    obtain ⟨hauth, h⟩ := guard_eq_ok.mp h
    refine ⟨hne, fun hsender => ?_, (Except.ok.inj h).symm⟩
    by_contra hneither
    obtain ⟨howner, hoperator⟩ := not_or.mp hneither
    exact hauth ⟨hsender, howner, hoperator⟩
  | setApprovalForAll operator approved =>
    obtain ⟨t, ht, h⟩ := bind_eq_ok.mp hok
    obtain rfl := pure_eq_ok.mp h
    obtain ⟨-, ht⟩ := guard_eq_ok.mp (mapErr_eq_ok.mp ht)
    exact (Except.ok.inj ht).symm

/-- An operation moves a token from its owner, or changes approvals. -/
theorem exec_eq_ok (hok : layer.exec _update e tx = .ok e') :
    (∃ dst tokenId, e' = e.move (e.owners tokenId) dst tokenId ∧ (tx.op = .mint dst tokenId ∨
      dst = 0 ∨ (tx.sender ≠ 0 → e._isAuthorized (e.owners tokenId) tx.sender tokenId))) ∨
    (∃ dst tokenId, e.owners tokenId ≠ 0 ∧ e' = e.setTokenApproval tokenId dst) ∨
    ∃ approvals, e' = { e with
      operatorApprovals := Function.update e.operatorApprovals tx.sender approvals } := by
  have hcases := exec_cases hok
  rcases tx with ⟨sender, op⟩
  cases op with
  | mint dst tokenId =>
    obtain ⟨howner, rfl⟩ := hcases
    exact Or.inl ⟨dst, tokenId, by rw [howner], Or.inl rfl⟩
  | burn tokenId => exact Or.inl ⟨0, tokenId, hcases.2, Or.inr (Or.inl rfl)⟩
  | transferFrom src dst tokenId =>
    obtain ⟨rfl, hauth, rfl⟩ := hcases
    exact Or.inl ⟨dst, tokenId, rfl, Or.inr (Or.inr hauth)⟩
  | approve dst tokenId =>
    obtain ⟨hne, -, rfl⟩ := hcases
    exact Or.inr (Or.inl ⟨dst, tokenId, hne, rfl⟩)
  | setApprovalForAll operator approved => exact Or.inr (Or.inr ⟨_, hcases⟩)

/-- The approvals stay clean. -/
theorem Clean.exec (h : e.Clean) (hsender : tx.sender ≠ 0)
    (hok : layer.exec _update e tx = .ok e') : e'.Clean := by
  rcases exec_eq_ok hok with ⟨dst, tokenId, rfl, -⟩ | ⟨dst, tokenId, howner, rfl⟩ | ⟨approvals, rfl⟩
  · exact h.move dst tokenId
  · refine ⟨fun id hid => ?_, h.operatorApprovals⟩
    refine (Function.update_of_ne ?_ ..).trans (h.tokenApprovals id hid)
    rintro rfl
    exact howner hid
  · refine ⟨h.tokenApprovals, fun operator => ?_⟩
    exact (congrFun (Function.update_of_ne hsender.symm ..) operator).trans
      (h.operatorApprovals operator)

/-- **A token without an owner gets one in a mint only.** -/
theorem Clean.owners_eq_zero (h : e.Clean) {id : U256} (hsender : tx.sender ≠ 0)
    (hid : e.owners id = 0) (hop : ∀ dst, tx.op ≠ .mint dst id)
    (hok : layer.exec _update e tx = .ok e') : e'.owners id = 0 := by
  rcases exec_eq_ok hok with ⟨dst, tokenId, rfl, hmove⟩ | ⟨dst, tokenId, -, rfl⟩ | ⟨approvals, rfl⟩
  · rw [owners_move_apply]
    split
    · rename_i heq
      subst heq
      rcases hmove with hmint | hburn | hauth
      · exact absurd hmint (hop dst)
      · exact hburn
      · have hauth := hauth hsender
        rw [hid, h.not_isAuthorized hid] at hauth
        exact absurd hauth Bool.false_ne_true
    · exact hid
  · exact hid
  · exact hid

end Erc721

end ContractsStylus
