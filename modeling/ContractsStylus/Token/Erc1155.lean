import ContractsStylus.Library.Tally
import ContractsStylus.Token.Receiver

/-!
# ERC-1155

The multi-token contract: balances for each token id and account, operator approvals, and the
acceptance check that hands control to the receiver of tokens.

The functions above `_update` read the same in the base contract and in the supply extension, so
they are written once, over the `_update` of any contract `σ`.

## Two contracts, one text

The base contract and the supply extension differ in `_update`. Whatever is built on it is given the
`update` as an argument: the acceptance check, mints, burns, transfers. Their inversion lemmas are
proved once, and say of a call that succeeds which update was made and that its receiver was asked.

## Totals

The balances of one id are a table over all addresses, of which there are finitely many, and `held`
is its sum. A batch is a list of pairs for such tables: what it does to the balances of one id
depends only on how much of that id is in it, however often the id occurs.

## Main definitions

* `Erc1155`, `Erc1155.Error` — the storage and the errors
* `Erc1155.doUpdate`, `Erc1155._update` — one token id, and a batch
* `Erc1155.Op`, `Erc1155.Tx` — the calls a run is made of
* `Erc1155.held` — all balances of one token id together

## Main results

* `Erc1155.held_update` — what a batch does to the balances of each id
-/

namespace ContractsStylus

/-- State of an ERC-1155 token. -/
structure Erc1155 where
  /-- Balances of each account, for each token id. -/
  balances : StorageMap U256 (StorageMap Address U256)
  /-- Operator approvals of each owner. -/
  operatorApprovals : StorageMap Address (StorageMap Address Bool)

namespace Erc1155

inductive Error
  | InsufficientBalance (sender : Address) (balance needed tokenId : U256)
  | InvalidSender (sender : Address)
  | InvalidReceiver (receiver : Address)
  /-- The receiver's own reason, as bytes. -/
  | InvalidReceiverWithReason (reason : Bytes)
  | MissingApprovalForAll (operator owner : Address)
  | InvalidApprover (approver : Address)
  | InvalidOperator (operator : Address)
  | InvalidArrayLength (idsLength valuesLength : U256)
  deriving DecidableEq, Repr

/-- The contract after deployment. -/
def empty : Erc1155 := ⟨fun _ _ => 0, fun _ _ => false⟩

def balanceOf (self : Erc1155) (account : Address) (id : U256) : U256 := self.balances id account

def isApprovedForAll (self : Erc1155) (account operator : Address) : Bool :=
  self.operatorApprovals account operator

/-- `self.balances.setter(id).setter(account).set(value)`. -/
def setBalance (self : Erc1155) (id : U256) (account : Address) (value : U256) : Erc1155 :=
  { self with
    balances := Function.update self.balances id
      (Function.update (self.balances id) account value) }

def requireEqualArraysLength {T U : Type} (ids : List T) (values : List U) : Result Error Unit :=
  if ids.length ≠ values.length then
    .err (.InvalidArrayLength (BitVec.ofNat 256 ids.length) (BitVec.ofNat 256 values.length))
  else .ok ()

def authorizeTransfer (self : Erc1155) (sender src : Address) : Result Error Unit :=
  if src ≠ sender ∧ ¬self.isApprovedForAll src sender then
    .err (.MissingApprovalForAll sender src)
  else .ok ()

def _setApprovalForAll (self : Erc1155) (owner operator : Address) (approved : Bool) :
    Result Error Erc1155 :=
  if operator = 0 then .err (.InvalidOperator operator)
  else .ok { self with
    operatorApprovals := Function.update self.operatorApprovals owner
      (Function.update (self.operatorApprovals owner) operator approved) }

/-- Move `value` of one token id; a zero `src` mints and a zero `dst` burns. -/
def doUpdate (self : Erc1155) (src dst : Address) (tokenId value : U256) :
    Result Error Erc1155 := do
  let self ← (if src ≠ 0 then
      let srcBalance := self.balanceOf src tokenId
      if srcBalance < value then .err (.InsufficientBalance src srcBalance value tokenId)
      else .ok (self.setBalance tokenId src (self.balanceOf src tokenId - value))
    else .ok self)
  if dst ≠ 0 then
    let dstBalance ← addAssignChecked (self.balanceOf dst tokenId) value
      "should not exceed `U256::MAX` for `balances`"
    pure (self.setBalance tokenId dst dstBalance)
  else pure self

def _update (self : Erc1155) (src dst : Address) (ids values : List U256) :
    Result Error Erc1155 := do
  requireEqualArraysLength ids values
  (ids.zip values).foldlM (fun self p => self.doUpdate src dst p.1 p.2) self

/-! ### The acceptance check -/

/-- The details of a transfer that a receiver is told. -/
inductive Transfer
  | Single (id value : U256)
  | Batch (ids values : List U256)
  deriving DecidableEq, Repr

def SINGLE_TRANSFER_FN_SELECTOR : B32 := 0xf23a6e61
def BATCH_TRANSFER_FN_SELECTOR : B32 := 0xbc197c81

structure Erc1155ReceiverData where
  receiverFnSelector : B32
  transfer : Transfer

def Erc1155ReceiverData.single (id value : U256) : Erc1155ReceiverData :=
  ⟨SINGLE_TRANSFER_FN_SELECTOR, .Single id value⟩

def Erc1155ReceiverData.batch (ids values : List U256) : Erc1155ReceiverData :=
  ⟨BATCH_TRANSFER_FN_SELECTOR, .Batch ids values⟩

/-- The two lists are of one length where this is called. -/
def Erc1155ReceiverData.new (ids values : List U256) : Erc1155ReceiverData :=
  match ids, values with
  | [id], value :: _ => single id value
  | _, _ => batch ids values

/-- A call of `on_erc1155_received` or `on_erc1155_batch_received`. -/
structure ReceiverCall where
  receiver : Address
  operator : Address
  src : Address
  transfer : Transfer
  data : Bytes

variable {σ : Type}

def _checkOnErc1155Received (env : Env ReceiverCall σ) (self : σ) (operator src dst : Address)
    (details : Erc1155ReceiverData) (data : Bytes) : Result Error σ :=
  checkOnReceived env self dst ⟨dst, operator, src, details.transfer, data⟩
    details.receiverFnSelector .InvalidReceiver .InvalidReceiverWithReason

/-! ### The functions over `_update` -/

/-- `_update` of some contract. -/
abbrev Update (σ : Type) := σ → Address → Address → List U256 → List U256 → Result Error σ

def updateWithAcceptanceCheck (update : Update σ) (env : Env ReceiverCall σ) (self : σ)
    (src dst : Address) (ids values : List U256) (data : Bytes) : Result Error σ := do
  let self ← update self src dst ids values
  if dst ≠ 0 then
    _checkOnErc1155Received env self env.sender src dst (.new ids values) data
  else pure self

def doMint (update : Update σ) (env : Env ReceiverCall σ) (self : σ) (dst : Address)
    (ids values : List U256) (data : Bytes) : Result Error σ :=
  if dst = 0 then .err (.InvalidReceiver dst)
  else updateWithAcceptanceCheck update env self 0 dst ids values data

def doBurn (update : Update σ) (env : Env ReceiverCall σ) (self : σ) (src : Address)
    (ids values : List U256) : Result Error σ :=
  if src = 0 then .err (.InvalidSender src)
  else updateWithAcceptanceCheck update env self src 0 ids values []

def doSafeTransferFrom (update : Update σ) (env : Env ReceiverCall σ) (self : σ) (src dst : Address)
    (ids values : List U256) (data : Bytes) : Result Error σ :=
  if dst = 0 then .err (.InvalidReceiver dst)
  else if src = 0 then .err (.InvalidSender src)
  else updateWithAcceptanceCheck update env self src dst ids values data

/-! ### Calls -/

/-- The calls a run is made of. -/
inductive Op
  | mint (dst : Address) (id value : U256) (data : Bytes)
  | mintBatch (dst : Address) (ids values : List U256) (data : Bytes)
  | burn (src : Address) (id value : U256)
  | burnBatch (src : Address) (ids values : List U256)
  | safeTransferFrom (src dst : Address) (id value : U256) (data : Bytes)
  | safeBatchTransferFrom (src dst : Address) (ids values : List U256) (data : Bytes)
  | setApprovalForAll (operator : Address) (approved : Bool)

/-- A call with its sender, and the accounts that are contracts at the time. -/
structure Tx where
  sender : Address
  hasCode : Address → Bool
  op : Op

/-- The values a call mints. -/
def Op.minted : Op → List U256
  | mint _ _ value _ => [value]
  | mintBatch _ _ values _ => values
  | _ => []

/-! ### What a call that succeeds has done -/

section Inversion

variable {update : Update σ} {env : Env ReceiverCall σ} {s s' : σ}

theorem updateWithAcceptanceCheck_eq_ok {src dst : Address} {ids values : List U256} {data : Bytes}
    (h : updateWithAcceptanceCheck update env s src dst ids values data = .ok s') :
    ∃ t, update s src dst ids values = .ok t ∧ Asked env.receivers t s' := by
  obtain ⟨t, ht, h⟩ := bind_eq_ok.mp h
  refine ⟨t, ht, ?_⟩
  split at h
  · exact checkOnReceived_eq_ok h
  · exact Or.inl (pure_eq_ok.mp h).symm

theorem doMint_eq_ok {dst : Address} {ids values : List U256} {data : Bytes}
    (h : doMint update env s dst ids values data = .ok s') :
    dst ≠ 0 ∧ ∃ t, update s 0 dst ids values = .ok t ∧ Asked env.receivers t s' := by
  obtain ⟨hdst, h⟩ := guard_eq_ok.mp h
  exact ⟨hdst, updateWithAcceptanceCheck_eq_ok h⟩

theorem doBurn_eq_ok {src : Address} {ids values : List U256}
    (h : doBurn update env s src ids values = .ok s') :
    src ≠ 0 ∧ ∃ t, update s src 0 ids values = .ok t ∧ Asked env.receivers t s' := by
  obtain ⟨hsrc, h⟩ := guard_eq_ok.mp h
  exact ⟨hsrc, updateWithAcceptanceCheck_eq_ok h⟩

theorem doSafeTransferFrom_eq_ok {src dst : Address} {ids values : List U256} {data : Bytes}
    (h : doSafeTransferFrom update env s src dst ids values data = .ok s') :
    src ≠ 0 ∧ ∃ t, update s src dst ids values = .ok t ∧ Asked env.receivers t s' := by
  obtain ⟨-, h⟩ := guard_eq_ok.mp h
  obtain ⟨hsrc, h⟩ := guard_eq_ok.mp h
  exact ⟨hsrc, updateWithAcceptanceCheck_eq_ok h⟩

end Inversion

/-! ### All balances of one token id -/

/-- All balances of one token id together. -/
noncomputable def held (self : Erc1155) (id : U256) : ℕ :=
  ∑ account, (self.balanceOf account id).toNat

theorem balanceOf_le_held (self : Erc1155) (account : Address) (id : U256) :
    (self.balanceOf account id).toNat ≤ self.held id :=
  Tally.le_sum (fun account => (self.balanceOf account id).toNat) account

/-- Nobody holds anything of an id exactly when the balances are zero. -/
theorem held_pos_iff (self : Erc1155) (id : U256) :
    0 < self.held id ↔ ∃ account, self.balanceOf account id ≠ 0 := by
  rw [held, Finset.sum_pos_iff]
  simp only [Finset.mem_univ, true_and, Nat.pos_iff_ne_zero, ne_eq, BitVec.toNat_eq,
    show (0 : U256).toNat = 0 from rfl]

/-- Writing one balance changes what is held of its id by the difference. -/
theorem held_setBalance (self : Erc1155) (id id' : U256) (account : Address) (value : U256) :
    (self.setBalance id account value).held id' +
        (if id = id' then (self.balanceOf account id).toNat else 0) =
      self.held id' + (if id = id' then value.toNat else 0) := by
  rcases eq_or_ne id id' with rfl | hne
  · simpa [held, balanceOf, setBalance] using
      Tally.sum_update BitVec.toNat (self.balances id) account value
  · simp [held, balanceOf, setBalance, hne, Function.update_of_ne hne.symm]

/-- **What one token id of a transfer does to the balances.** -/
theorem held_doUpdate {self self' : Erc1155} {src dst : Address} {tokenId value : U256}
    (h : self.doUpdate src dst tokenId value = .ok self') (id : U256) :
    self'.held id + (if src ≠ 0 then if tokenId = id then value.toNat else 0 else 0) =
      self.held id + (if dst ≠ 0 then if tokenId = id then value.toNat else 0 else 0) := by
  obtain ⟨mid, hmid, h⟩ := bind_eq_ok.mp h
  have hdebit : mid.held id +
      (if src ≠ 0 then if tokenId = id then value.toNat else 0 else 0) = self.held id := by
    split at hmid
    · rename_i hsrc
      obtain ⟨hle, hmid⟩ := guard_eq_ok.mp hmid
      obtain rfl := Except.ok.inj hmid
      have hset := held_setBalance self tokenId id src (self.balanceOf src tokenId - value)
      have hsub := BitVec.toNat_sub_add_cancel (BitVec.not_lt.mp hle)
      rw [if_pos hsrc]
      split_ifs at hset ⊢ <;> omega
    · rename_i hsrc
      obtain rfl := Except.ok.inj hmid
      rw [if_neg hsrc, Nat.add_zero]
  have hcredit : self'.held id = mid.held id +
      (if dst ≠ 0 then if tokenId = id then value.toNat else 0 else 0) := by
    split at h
    · rename_i hdst
      obtain ⟨balance, hbalance, h⟩ := bind_eq_ok.mp h
      rw [addAssignChecked_eq_ok] at hbalance
      obtain rfl := pure_eq_ok.mp h
      have hset := held_setBalance mid tokenId id dst balance
      rw [if_pos hdst]
      split_ifs at hset ⊢ <;> omega
    · rename_i hdst
      obtain rfl := pure_eq_ok.mp h
      rw [if_neg hdst, Nat.add_zero]
  omega

/-- The pairs of a batch, with the values as numbers. -/
def batch (ids values : List U256) : List (U256 × ℕ) :=
  (ids.zip values).map fun p => (p.1, p.2.toNat)

theorem held_foldlM {src dst : Address} (pairs : List (U256 × U256)) (id : U256) :
    ∀ {self self' : Erc1155},
      pairs.foldlM (fun self p => self.doUpdate src dst p.1 p.2) self = .ok self' →
        self'.held id + (if src ≠ 0 then Tally.amount (pairs.map fun p => (p.1, p.2.toNat)) id
            else 0) =
          self.held id + (if dst ≠ 0 then Tally.amount (pairs.map fun p => (p.1, p.2.toNat)) id
            else 0) := by
  induction pairs with
  | nil => rintro self self' ⟨⟩; simp
  | cons p pairs ih =>
    intro self self' h
    rw [List.foldlM_cons] at h
    obtain ⟨mid, hmid, h⟩ := bind_eq_ok.mp h
    have hone := held_doUpdate hmid id
    have hrest := ih h
    simp only [List.map_cons, Tally.amount_cons]
    split_ifs at * <;> omega

/-- **What a batch does to the balances**: what is held of an id falls by its amount in the batch
unless the batch mints, and rises by it unless the batch burns. -/
theorem held_update {self self' : Erc1155} {src dst : Address} {ids values : List U256}
    (h : self._update src dst ids values = .ok self') (id : U256) :
    self'.held id + (if src ≠ 0 then Tally.amount (batch ids values) id else 0) =
      self.held id + (if dst ≠ 0 then Tally.amount (batch ids values) id else 0) := by
  obtain ⟨-, -, h⟩ := bind_eq_ok.mp h
  exact held_foldlM _ id h

/-- A mint of lists of one length fails only where a balance overflows. -/
theorem noErr_update_mint (self : Erc1155) (dst : Address) {ids values : List U256}
    (hlen : ids.length = values.length) : (self._update 0 dst ids values).NoErr := by
  have hdoUpdate (self : Erc1155) (p : U256 × U256) : (self.doUpdate 0 dst p.1 p.2).NoErr := by
    refine Result.NoErr.bind (Result.NoErr.of_ok self) fun self => ?_
    split
    · exact Result.NoErr.bind (Result.NoErr.expect _ _) fun _ => Result.NoErr.of_ok _
    · exact Result.NoErr.of_ok _
  rw [_update, requireEqualArraysLength, if_neg (not_not.mpr hlen), ok_bind]
  exact Result.NoErr.foldlM hdoUpdate _ _

theorem length_of_update {self self' : Erc1155} {src dst : Address} {ids values : List U256}
    (h : self._update src dst ids values = .ok self') : ids.length = values.length := by
  obtain ⟨_, hlen, _⟩ := bind_eq_ok.mp h
  rw [requireEqualArraysLength, guard_eq_ok] at hlen
  exact not_not.mp hlen.1

/-- A batch holds, all ids together, the sum of its values. -/
theorem sum_amount_batch {ids values : List U256} (h : ids.length = values.length) :
    ∑ id, Tally.amount (batch ids values) id = (values.map BitVec.toNat).sum := by
  rw [Tally.sum_amount, batch, List.map_map]
  congr 1
  rw [show (Prod.snd ∘ fun p : U256 × U256 => (p.1, p.2.toNat)) = BitVec.toNat ∘ Prod.snd from rfl,
    ← List.map_map, List.map_snd_zip h.ge]

end Erc1155

end ContractsStylus
