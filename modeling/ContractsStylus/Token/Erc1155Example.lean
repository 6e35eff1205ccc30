import ContractsStylus.Token.Erc1155Batches

/-!
# The ERC-1155 example

The contract of `examples/erc1155`: the interface of the base contract and of the burnable
extension, with mints that are open to everybody. Receivers of tokens are called in the middle of a
call, and may make calls of their own from there.

Two things hold in every run, whatever the receivers do. Nothing is taken from an account in whose
name nobody acts. And a contract that never accepts tokens never keeps any, although it has them
while it is asked.

## Asking receivers

A contract that is sent tokens is asked after the balances have changed, and may call the token from
there. A run therefore nests, and its induction has two premises: one for the call itself, and one
for what the receiver does in the middle. `Effect` gives a call in two halves for that reason, an
update and the question that follows it.

`share` writes the two sides of a transfer in one equation. A side that is the zero address has no
balance, and an account can be on both sides; with `share` neither is a case of its own.

## Who accepts nothing

The statement on receivers is not an invariant of the calls: in the middle of a call the contract
does have tokens. What is invariant is that it has none whenever a call has succeeded, since the
call that gave it some asks it and fails.

## Main definitions

* `Erc1155.exec` — the calls, with receivers that may call back
* `Erc1155.Effect` — what a call that succeeds has done
* `Erc1155.rejecting` — receivers one of which never accepts

## Main results

* `Erc1155.balanceOf_update_eq` — what a batch does to the balances of an account
* `Erc1155.untouched_run` — nothing is taken from an account in whose name nobody acts
* `Erc1155.rejecting_run` — who accepts nothing keeps nothing
-/

namespace ContractsStylus

namespace Erc1155

/-! ### The interface

A call has a sender, and receivers that may be asked. The functions of the burnable extension check
the right to a burn themselves, in the same way as the base contract checks that to a transfer. -/

def balanceOfBatch (self : Erc1155) (accounts : List Address) (ids : List U256) :
    Result Error (List U256) := do
  requireEqualArraysLength ids accounts
  pure ((accounts.zip ids).map fun p => self.balanceOf p.1 p.2)

section Functions

variable (env : Env ReceiverCall Erc1155) (self : Erc1155)

def setApprovalForAll (operator : Address) (approved : Bool) : Result Error Erc1155 :=
  self._setApprovalForAll env.sender operator approved

def safeTransferFrom (src dst : Address) (id value : U256) (data : Bytes) :
    Result Error Erc1155 := do
  self.authorizeTransfer env.sender src
  doSafeTransferFrom _update env self src dst [id] [value] data

def safeBatchTransferFrom (src dst : Address) (ids values : List U256) (data : Bytes) :
    Result Error Erc1155 := do
  self.authorizeTransfer env.sender src
  doSafeTransferFrom _update env self src dst ids values data

def _mint (dst : Address) (id value : U256) (data : Bytes) : Result Error Erc1155 :=
  doMint _update env self dst [id] [value] data

def _mintBatch (dst : Address) (ids values : List U256) (data : Bytes) : Result Error Erc1155 :=
  doMint _update env self dst ids values data

def _burn (src : Address) (id value : U256) : Result Error Erc1155 :=
  doBurn _update env self src [id] [value]

def _burnBatch (src : Address) (ids values : List U256) : Result Error Erc1155 :=
  doBurn _update env self src ids values

/-- The same check as before a transfer, written a second time in the extension. -/
def ensureApprovedOrOwner (sender account : Address) : Result Error Unit :=
  self.authorizeTransfer sender account

def burn (account : Address) (tokenId value : U256) : Result Error Erc1155 := do
  self.ensureApprovedOrOwner env.sender account
  _burn env self account tokenId value

def burnBatch (account : Address) (tokenIds values : List U256) : Result Error Erc1155 := do
  self.ensureApprovedOrOwner env.sender account
  _burnBatch env self account tokenIds values

end Functions

/-- One call of the example. -/
def exec (tx : Tx) (receivers : Reentrant.Callback ReceiverCall Erc1155 B32 CallError)
    (self : Erc1155) : Result Error Erc1155 :=
  let env : Env ReceiverCall Erc1155 := ⟨tx.sender, tx.hasCode, receivers⟩
  match tx.op with
  | .mint dst id value data => _mint env self dst id value data
  | .mintBatch dst ids values data => _mintBatch env self dst ids values data
  | .burn src id value => burn env self src id value
  | .burnBatch src ids values => burnBatch env self src ids values
  | .safeTransferFrom src dst id value data => safeTransferFrom env self src dst id value data
  | .safeBatchTransferFrom src dst ids values data =>
    safeBatchTransferFrom env self src dst ids values data
  | .setApprovalForAll operator approved => setApprovalForAll env self operator approved

/-! ### What a call that succeeds has done -/

variable {self self' s s' : Erc1155} {sender src dst account owner : Address}
  {receivers : Reentrant.Callback ReceiverCall Erc1155 B32 CallError} {tx : Tx}

theorem authorizeTransfer_eq_ok {u : Unit} : self.authorizeTransfer sender src = .ok u ↔
    src = sender ∨ self.isApprovedForAll src sender := by
  rw [authorizeTransfer, guard_eq_ok]
  simp only [not_and_or, not_not, and_true, ne_eq]

/-- What a call that succeeds has done: an approval was given or taken back, or a batch was moved
by somebody who may move it and its receiver was asked. -/
inductive Effect (tx : Tx) (receivers : Reentrant.Callback ReceiverCall Erc1155 B32 CallError)
    (self : Erc1155) : Erc1155 → Prop
  | approval {operator : Address} {approved : Bool} {s' : Erc1155}
      (h : self._setApprovalForAll tx.sender operator approved = .ok s') :
      Effect tx receivers self s'
  | update {src dst : Address} {ids values : List U256} (data : Bytes) {t s' : Erc1155}
      (hauth : src = 0 ∨ src = tx.sender ∨ self.isApprovedForAll src tx.sender)
      (h : self._update src dst ids values = .ok t)
      (hcheck : (dst = 0 ∧ s' = t) ∨
        _checkOnErc1155Received ⟨tx.sender, tx.hasCode, receivers⟩ t tx.sender src dst
          (.new ids values) data = .ok s') :
      Effect tx receivers self s'

theorem Effect.of_update {ids values : List U256} {data : Bytes}
    (hauth : src = 0 ∨ src = tx.sender ∨ self.isApprovedForAll src tx.sender)
    (h : updateWithAcceptanceCheck _update ⟨tx.sender, tx.hasCode, receivers⟩ self src dst ids
      values data = .ok s') : Effect tx receivers self s' := by
  obtain ⟨t, ht, h⟩ := bind_eq_ok.mp h
  refine .update data hauth ht ?_
  by_cases hdst : dst = 0
  · rw [if_neg (not_not.mpr hdst)] at h
    exact Or.inl ⟨hdst, (pure_eq_ok.mp h).symm⟩
  · rw [if_pos hdst] at h
    exact Or.inr h

theorem effect_of_exec (h : exec tx receivers self = .ok s') : Effect tx receivers self s' := by
  rcases tx with ⟨sender, hasCode, op⟩
  cases op with
  | mint dst id value data =>
    obtain ⟨-, h⟩ := guard_eq_ok.mp h
    exact .of_update (Or.inl rfl) h
  | mintBatch dst ids values data =>
    obtain ⟨-, h⟩ := guard_eq_ok.mp h
    exact .of_update (Or.inl rfl) h
  | burn src id value =>
    obtain ⟨_, hauth, h⟩ := bind_eq_ok.mp h
    obtain ⟨-, h⟩ := guard_eq_ok.mp h
    exact .of_update (Or.inr (authorizeTransfer_eq_ok.mp hauth)) h
  | burnBatch src ids values =>
    obtain ⟨_, hauth, h⟩ := bind_eq_ok.mp h
    obtain ⟨-, h⟩ := guard_eq_ok.mp h
    exact .of_update (Or.inr (authorizeTransfer_eq_ok.mp hauth)) h
  | safeTransferFrom src dst id value data =>
    obtain ⟨_, hauth, h⟩ := bind_eq_ok.mp h
    obtain ⟨-, h⟩ := guard_eq_ok.mp h
    obtain ⟨-, h⟩ := guard_eq_ok.mp h
    exact .of_update (Or.inr (authorizeTransfer_eq_ok.mp hauth)) h
  | safeBatchTransferFrom src dst ids values data =>
    obtain ⟨_, hauth, h⟩ := bind_eq_ok.mp h
    obtain ⟨-, h⟩ := guard_eq_ok.mp h
    obtain ⟨-, h⟩ := guard_eq_ok.mp h
    exact .of_update (Or.inr (authorizeTransfer_eq_ok.mp hauth)) h
  | setApprovalForAll operator approved => exact .approval h

/-! ### The balances of one account

An update is a list of pairs, each taken from one account and given to another. What an account has
afterwards depends on the amount that the list holds of an id, and on whether it is one of the
two. -/

/-- What an account has to do with an amount that is taken from or given to `side`. -/
def share (side account : Address) (n : ℕ) : ℕ := if side ≠ 0 ∧ account = side then n else 0

theorem share_add (side account : Address) (m n : ℕ) :
    share side account (m + n) = share side account m + share side account n := by
  rw [share, share, share]
  split <;> rfl

theorem share_of_ne {side account : Address} (h : side = 0 ∨ account ≠ side) (n : ℕ) :
    share side account n = 0 :=
  if_neg fun hc => h.elim hc.1 fun hne => hne hc.2

/-- **What one token id of a transfer does to the balance of an account.** -/
theorem balanceOf_doUpdate_eq {tokenId value : U256}
    (h : self.doUpdate src dst tokenId value = .ok s') (account : Address) (id : U256) :
    (s'.balanceOf account id).toNat + share src account (if tokenId = id then value.toNat else 0) =
      (self.balanceOf account id).toNat +
        share dst account (if tokenId = id then value.toNat else 0) := by
  obtain ⟨mid, hmid, h⟩ := bind_eq_ok.mp h
  have hdebit : (mid.balanceOf account id).toNat +
      share src account (if tokenId = id then value.toNat else 0) =
        (self.balanceOf account id).toNat := by
    split at hmid
    · rename_i hsrc
      obtain ⟨hle, hmid⟩ := guard_eq_ok.mp hmid
      obtain rfl := Except.ok.inj hmid
      have hsub := BitVec.toNat_sub_add_cancel (BitVec.not_lt.mp hle)
      rw [balanceOf_setBalance, share]
      by_cases hacc : account = src
      · subst hacc
        rw [if_pos (⟨hsrc, rfl⟩ : account ≠ 0 ∧ account = account)]
        by_cases hid : tokenId = id
        · subst hid
          rw [if_pos ⟨rfl, rfl⟩, if_pos rfl, hsub]
        · rw [if_neg fun hc => hid hc.1.symm, if_neg hid, Nat.add_zero]
      · rw [if_neg fun hc => hacc hc.2, if_neg fun hc => hacc hc.2, Nat.add_zero]
    · rename_i hsrc
      obtain rfl := Except.ok.inj hmid
      rw [share_of_ne (Or.inl (not_not.mp hsrc)), Nat.add_zero]
  have hcredit : (s'.balanceOf account id).toNat = (mid.balanceOf account id).toNat +
      share dst account (if tokenId = id then value.toNat else 0) := by
    split at h
    · rename_i hdst
      obtain ⟨balance, hbalance, h⟩ := bind_eq_ok.mp h
      rw [addAssignChecked_eq_ok] at hbalance
      obtain rfl := pure_eq_ok.mp h
      rw [balanceOf_setBalance, share]
      by_cases hacc : account = dst
      · subst hacc
        rw [if_pos (⟨hdst, rfl⟩ : account ≠ 0 ∧ account = account)]
        by_cases hid : tokenId = id
        · subst hid
          rw [if_pos ⟨rfl, rfl⟩, if_pos rfl, hbalance]
        · rw [if_neg fun hc => hid hc.1.symm, if_neg hid, Nat.add_zero]
      · rw [if_neg fun hc => hacc hc.2, if_neg fun hc => hacc hc.2, Nat.add_zero]
    · rename_i hdst
      obtain rfl := pure_eq_ok.mp h
      rw [share_of_ne (Or.inl (not_not.mp hdst)), Nat.add_zero]
  omega

/-- **What a batch does to the balance of an account**: it falls by what the batch holds of the id
if the account is the sender, and rises by it if it is the recipient. -/
theorem balanceOf_update_eq {ids values : List U256}
    (h : self._update src dst ids values = .ok s') (account : Address) (id : U256) :
    (s'.balanceOf account id).toNat + share src account (Tally.amount (batch ids values) id) =
      (self.balanceOf account id).toNat +
        share dst account (Tally.amount (batch ids values) id) := by
  rw [_update, bind_eq_ok] at h
  obtain ⟨-, -, h⟩ := h
  rw [batch]
  generalize ids.zip values = pairs at h ⊢
  induction pairs generalizing self with
  | nil =>
    obtain rfl := Except.ok.inj h
    simp [share]
  | cons p pairs ih =>
    rw [List.foldlM_cons] at h
    obtain ⟨mid, hmid, h⟩ := bind_eq_ok.mp h
    have hone := balanceOf_doUpdate_eq hmid account id
    have hrest := ih h
    rw [List.map_cons, Tally.amount_cons, share_add, share_add]
    dsimp only
    omega

/-! ### Accounts in whose name nobody acts

`ActsFor` is about the sender of a call and the approvals at the time. `Untouched` compares two
states and is transitive, so that the runs of receivers fit in between. -/

theorem doUpdate_operatorApprovals {tokenId value : U256}
    (h : self.doUpdate src dst tokenId value = .ok s') :
    s'.operatorApprovals = self.operatorApprovals := by
  obtain ⟨mid, hmid, h⟩ := bind_eq_ok.mp h
  have hdebit : mid.operatorApprovals = self.operatorApprovals := by
    split at hmid
    · obtain ⟨-, hmid⟩ := guard_eq_ok.mp hmid
      rw [← Except.ok.inj hmid]
      rfl
    · rw [← Except.ok.inj hmid]
  rw [← hdebit]
  split at h
  · obtain ⟨balance, -, h⟩ := bind_eq_ok.mp h
    rw [← pure_eq_ok.mp h]
    rfl
  · rw [← pure_eq_ok.mp h]

theorem update_operatorApprovals {ids values : List U256}
    (h : self._update src dst ids values = .ok s') :
    s'.operatorApprovals = self.operatorApprovals := by
  rw [_update, bind_eq_ok] at h
  obtain ⟨-, -, h⟩ := h
  generalize ids.zip values = pairs at h
  induction pairs generalizing self with
  | nil => rw [← Except.ok.inj h]
  | cons p pairs ih =>
    rw [List.foldlM_cons] at h
    obtain ⟨mid, hmid, h⟩ := bind_eq_ok.mp h
    rw [ih h, doUpdate_operatorApprovals hmid]

/-- The sender of a call may act for `owner`. -/
def ActsFor (owner : Address) (self : Erc1155) (tx : Tx) : Prop :=
  owner = tx.sender ∨ self.isApprovedForAll owner tx.sender

/-- Nothing was taken from `owner`, and her operators are the same. -/
structure Untouched (owner : Address) (s s' : Erc1155) : Prop where
  balances : ∀ id, s.balanceOf owner id ≤ s'.balanceOf owner id
  operators : ∀ operator, s'.isApprovedForAll owner operator = s.isApprovedForAll owner operator

theorem Untouched.refl (owner : Address) (s : Erc1155) : Untouched owner s s :=
  ⟨fun _ => le_refl _, fun _ => rfl⟩

theorem Untouched.trans {t : Erc1155} (h : Untouched owner s t) (h' : Untouched owner t s') :
    Untouched owner s s' :=
  ⟨fun id => (h.balances id).trans (h'.balances id),
    fun operator => (h'.operators operator).trans (h.operators operator)⟩

/-- Approvals are given by their owner. -/
theorem Untouched.of_approval {operator : Address} {approved : Bool} (hne : owner ≠ sender)
    (h : self._setApprovalForAll sender operator approved = .ok s') : Untouched owner self s' := by
  rw [_setApprovalForAll, guard_eq_ok] at h
  obtain rfl := Except.ok.inj h.2
  refine ⟨fun _ => le_refl _, fun o => ?_⟩
  exact (update_update_apply ..).trans (if_neg fun hc => hne hc.1)

/-- A batch is taken from its sender. -/
theorem Untouched.of_update {ids values : List U256} (hne : owner ≠ src)
    (h : self._update src dst ids values = .ok s') : Untouched owner self s' := by
  refine ⟨fun id => BitVec.le_def.mpr ?_, fun o => ?_⟩
  · have hbalance := balanceOf_update_eq h owner id
    rw [share_of_ne (Or.inr hne)] at hbalance
    omega
  · rw [isApprovedForAll, isApprovedForAll, update_operatorApprovals h]

/-- **Nothing is taken from an account in whose name nobody acts**, in any run, whatever the
receivers do while they are asked. -/
theorem untouched_run (howner : owner ≠ 0)
    (h : Reentrant.Run exec (fun s tx => ¬ActsFor owner s tx) s s') : Untouched owner s s' := by
  refine Reentrant.Run.invariant h ?_ (Untouched.refl owner s)
  intro tx receivers t v ht hacts hcalls hexec
  have hsender : owner ≠ tx.sender := fun heq => hacts (Or.inl heq)
  cases effect_of_exec hexec with
  | approval h => exact ht.trans (.of_approval hsender h)
  | @update src dst ids values data u _ hauth h hcheck =>
    have hsrc : owner ≠ src := by
      rintro rfl
      rcases hauth with hzero | heq | hoperator
      · exact howner hzero
      · exact hsender heq
      · exact hacts (Or.inr hoperator)
    have hu := ht.trans (.of_update hsrc h)
    rcases hcheck with ⟨-, rfl⟩ | hcheck
    · exact hu
    · rcases checkOnReceived_eq_ok hcheck with rfl | ⟨a, b, hcall⟩
      · exact hu
      · exact hcalls _ _ _ _ hcall hu

/-- Account `1` has seven of an id, of which account `2` cannot take any. -/
theorem untouched_run_one : ∃ s s' : Erc1155,
    Reentrant.Run exec (fun s tx => ¬ActsFor 1 s tx) s s' ∧ 7 ≤ s'.balanceOf 1 3 := by
  let s : Erc1155 := ⟨fun _ _ => 7, fun _ _ => false⟩
  let receivers : Reentrant.Callback ReceiverCall Erc1155 B32 CallError :=
    fun _ _ => .error .AbiDecodingFailed
  have hexec : (exec ⟨2, fun _ => false, .burn 2 3 5⟩ receivers s).toOption.map
      (fun s => s.balanceOf 2 3) = some 2 := by decide +kernel
  obtain ⟨s', hs', -⟩ := Option.map_eq_some_iff.mp hexec
  have hrun : Reentrant.Run exec (fun s tx => ¬ActsFor 1 s tx) s s' := by
    refine .call (.refl s) (by simp [ActsFor, isApprovedForAll, s]) ?_
      (Except.toOption_eq_some.mp hs')
    exact nofun
  exact ⟨s, s', hrun, (untouched_run (by decide) hrun).balances 3⟩

/-! ### Contracts that do not accept tokens -/

/-- The receivers when `c` does not accept: whatever it does while it is asked, its answer is not
the selector of a hook. -/
def rejecting (c : Address) (receivers : Reentrant.Callback ReceiverCall Erc1155 B32 CallError) :
    Reentrant.Callback ReceiverCall Erc1155 B32 CallError :=
  fun a s =>
    match receivers a s with
    | .ok (b, s') =>
      if a.receiver = c ∧ (b = SINGLE_TRANSFER_FN_SELECTOR ∨ b = BATCH_TRANSFER_FN_SELECTOR) then
        .error .AbiDecodingFailed
      else .ok (b, s')
    | .error e => .error e

variable {c : Address} {a : ReceiverCall} {b : B32}

theorem rejecting_eq_ok (h : rejecting c receivers a s = .ok (b, s')) :
    receivers a s = .ok (b, s') ∧ (a.receiver = c →
      b ≠ SINGLE_TRANSFER_FN_SELECTOR ∧ b ≠ BATCH_TRANSFER_FN_SELECTOR) := by
  rw [rejecting] at h
  split at h
  · rename_i b' t hcall
    split at h
    · exact nomatch h
    · rename_i hreject
      obtain ⟨rfl, rfl⟩ := Prod.mk.inj (Except.ok.inj h)
      exact ⟨hcall, fun hc => not_or.mp fun hb => hreject ⟨hc, hb⟩⟩
  · exact nomatch h

theorem receiverFnSelector_new (ids values : List U256) :
    (Erc1155ReceiverData.new ids values).receiverFnSelector = SINGLE_TRANSFER_FN_SELECTOR ∨
      (Erc1155ReceiverData.new ids values).receiverFnSelector = BATCH_TRANSFER_FN_SELECTOR := by
  unfold Erc1155ReceiverData.new
  split
  · exact Or.inl rfl
  · exact Or.inr rfl

/-- A batch is not sent to a contract that does not accept. -/
theorem dst_ne_of_rejecting {ids values : List U256} {data : Bytes}
    (hcode : tx.hasCode c)
    (h : _checkOnErc1155Received ⟨tx.sender, tx.hasCode, rejecting c receivers⟩
      s tx.sender src dst (.new ids values) data = .ok s') : dst ≠ c := by
  rintro rfl
  obtain ⟨-, hne⟩ := rejecting_eq_ok (checkOnReceived_accepted hcode h)
  obtain ⟨hsingle, hbatch⟩ := hne rfl
  exact (receiverFnSelector_new ids values).elim hsingle hbatch

/-- The contract has nothing. -/
def HoldsNothing (c : Address) (s : Erc1155) : Prop := ∀ id, s.balanceOf c id = 0

/-- What is not sent to an account that has nothing leaves it with nothing. -/
theorem HoldsNothing.of_update {ids values : List U256} (hs : HoldsNothing c s) (hne : c ≠ dst)
    (h : s._update src dst ids values = .ok s') : HoldsNothing c s' := by
  intro id
  have hbalance := balanceOf_update_eq h c id
  rw [share_of_ne (Or.inr hne), hs id] at hbalance
  refine BitVec.eq_of_toNat_eq ?_
  change _ = 0 at hbalance
  change _ = 0
  omega

/-- **Who accepts nothing keeps nothing**: a contract that has no tokens, and does not answer with
the selector of a hook when it is asked, has none after any run, whatever it and the other receivers
do with what they are sent. -/
theorem rejecting_run (hc : c ≠ 0) (hs : HoldsNothing c s)
    (h : Reentrant.Run (fun tx receivers => exec tx (rejecting c receivers))
      (fun _ tx => tx.hasCode c) s s') : HoldsNothing c s' := by
  refine Reentrant.Run.invariant h ?_ hs
  intro tx receivers t v ht hcode hcalls hexec
  cases effect_of_exec hexec with
  | approval h =>
    rw [_setApprovalForAll, guard_eq_ok] at h
    obtain rfl := Except.ok.inj h.2
    exact ht
  | @update src dst ids values data u _ _ h hcheck =>
    rcases hcheck with ⟨hdst, rfl⟩ | hcheck
    · exact ht.of_update (fun heq => hc (heq.trans hdst)) h
    · have hu := ht.of_update (dst_ne_of_rejecting hcode hcheck).symm h
      rcases checkOnReceived_eq_ok hcheck with rfl | ⟨a, b, hcall⟩
      · exact hu
      · exact hcalls _ _ _ _ (rejecting_eq_ok hcall).1 hu

/-- Account `1` mints for itself, and the contract `2` still has nothing. -/
theorem rejecting_run_two : ∃ s s' : Erc1155,
    Reentrant.Run (fun tx receivers => exec tx (rejecting 2 receivers))
      (fun _ tx => tx.hasCode 2) s s' ∧ s'.balanceOf 1 3 = 7 ∧ HoldsNothing 2 s' := by
  let s : Erc1155 := ⟨fun _ _ => 0, fun _ _ => false⟩
  let tx : Tx := ⟨1, fun a => a = 2, .mint 1 3 7 []⟩
  let receivers : Reentrant.Callback ReceiverCall Erc1155 B32 CallError :=
    fun _ _ => .error .AbiDecodingFailed
  have hexec : (exec tx (rejecting 2 receivers) s).toOption.map (fun s => s.balanceOf 1 3) =
      some 7 := by decide +kernel
  obtain ⟨s', hs', hbalance⟩ := Option.map_eq_some_iff.mp hexec
  have hrun : Reentrant.Run (fun tx receivers => exec tx (rejecting 2 receivers))
      (fun _ tx => tx.hasCode 2) s s' := by
    refine .call (.refl s) (by simp [tx]) ?_ (Except.toOption_eq_some.mp hs')
    exact nofun
  exact ⟨s, s', hrun, hbalance, rejecting_run (by decide) (fun _ => rfl) hrun⟩

end Erc1155

end ContractsStylus
