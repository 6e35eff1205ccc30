import ContractsStylus.Library.InPlace
import ContractsStylus.Token.Erc1155

/-!
# Batches of an ERC-1155 token

A batch is a loop over its pairs, each of which sees the balances that the ones before it have
left; an id may occur in it any number of times. So a batch does what its pairs do one after
another, as calls of their own, and it fails where one of them fails. The contract writes its
balances in place while the loop is still running: a batch that fails has moved some of its pairs,
and it is the transaction it runs in that takes these back.

## In place and functional

The rest of the development gives an update as a function that returns the new contract or fails.
Here the same loop is written with its writes where the source makes them, so that a failure leaves
a half of its work behind. `result_updateInPlace` forgets what a failure leaves, and finds the
function that the rest of the development uses.

## Main definitions

* `Erc1155.doUpdateInPlace`, `Erc1155.updateInPlace` — the loop, with each write where it is made

## Main results

* `Erc1155.result_updateInPlace` — what can be seen of the loop from outside
* `Erc1155.balanceOf_doUpdate` — the balances that a pair may change
* `Erc1155.update_eq_singles` — a batch is its pairs, one after another
-/

namespace ContractsStylus

namespace Erc1155

variable {self self' : Erc1155} {src dst : Address}

/-! ### Writes in place -/

/-- The first half of `do_update`, with the write where it is made. -/
def debitInPlace (src : Address) (tokenId value : U256) :
    InPlace Erc1155 (Revert Error) Unit := do
  let self ← get
  let srcBalance := self.balanceOf src tokenId
  if srcBalance < value then throw (.err (.InsufficientBalance src srcBalance value tokenId))
  else set (self.setBalance tokenId src (self.balanceOf src tokenId - value))

/-- The second half of `do_update`. -/
def creditInPlace (dst : Address) (tokenId value : U256) :
    InPlace Erc1155 (Revert Error) Unit := do
  let self ← get
  let dstBalance ← .ofExcept (addAssignChecked (self.balanceOf dst tokenId) value
    "should not exceed `U256::MAX` for `balances`")
  set (self.setBalance tokenId dst dstBalance)

/-- `do_update`. -/
def doUpdateInPlace (src dst : Address) (tokenId value : U256) :
    InPlace Erc1155 (Revert Error) Unit := do
  (if src ≠ 0 then debitInPlace src tokenId value else pure ())
  (if dst ≠ 0 then creditInPlace dst tokenId value else pure ())

/-- `_update`, with each write where it is made. -/
def updateInPlace (src dst : Address) (ids values : List U256) :
    InPlace Erc1155 (Revert Error) Unit := do
  .ofExcept (requireEqualArraysLength ids values)
  forM (ids.zip values) fun p => doUpdateInPlace src dst p.1 p.2

theorem result_doUpdateInPlace (self : Erc1155) (src dst : Address) (tokenId value : U256) :
    (doUpdateInPlace src dst tokenId value).result self = self.doUpdate src dst tokenId value := by
  rw [doUpdateInPlace, InPlace.result_bind, doUpdate, InPlace.result_ite]
  refine congrArg₂ (· >>= ·) ?_ (funext fun self => ?_)
  · rw [debitInPlace, InPlace.result_get_bind, InPlace.result_ite]
    rfl
  · rw [InPlace.result_ite, creditInPlace, InPlace.result_get_bind, InPlace.result_ofExcept_bind]
    rfl

/-- **What can be seen** of the loop is the function that gives the new state or fails. -/
theorem result_updateInPlace (self : Erc1155) (src dst : Address) (ids values : List U256) :
    (updateInPlace src dst ids values).result self = self._update src dst ids values := by
  rw [updateInPlace, InPlace.result_ofExcept_bind, _update]
  simp only [InPlace.result_forM, result_doUpdateInPlace]

/-! ### What a batch changes -/

theorem balanceOf_setBalance (self : Erc1155) (id id' : U256) (account account' : Address)
    (value : U256) : (self.setBalance id account value).balanceOf account' id' =
      if id' = id ∧ account' = account then value else self.balanceOf account' id' :=
  update_update_apply ..

/-- One pair changes the balances of two accounts, of one id. -/
theorem balanceOf_doUpdate {tokenId value : U256}
    (h : self.doUpdate src dst tokenId value = .ok self') {account : Address} {id : U256}
    (hne : (account ≠ src ∧ account ≠ dst) ∨ id ≠ tokenId) :
    self'.balanceOf account id = self.balanceOf account id := by
  obtain ⟨mid, hmid, h⟩ := bind_eq_ok.mp h
  have hdebit : mid.balanceOf account id = self.balanceOf account id := by
    split at hmid
    · obtain ⟨-, hmid⟩ := guard_eq_ok.mp hmid
      obtain rfl := Except.ok.inj hmid
      rw [balanceOf_setBalance, if_neg (by tauto)]
    · obtain rfl := Except.ok.inj hmid
      rfl
  have hcredit : self'.balanceOf account id = mid.balanceOf account id := by
    split at h
    · obtain ⟨balance, -, h⟩ := bind_eq_ok.mp h
      obtain rfl := pure_eq_ok.mp h
      rw [balanceOf_setBalance, if_neg (by tauto)]
    · obtain rfl := pure_eq_ok.mp h
      rfl
  rw [hcredit, hdebit]

theorem balanceOf_foldlM {pairs : List (U256 × U256)} {account : Address} {id : U256}
    (hne : (account ≠ src ∧ account ≠ dst) ∨ id ∉ pairs.map Prod.fst) :
    ∀ {self self' : Erc1155},
      pairs.foldlM (fun self p => self.doUpdate src dst p.1 p.2) self = .ok self' →
        self'.balanceOf account id = self.balanceOf account id := by
  induction pairs with
  | nil =>
    rintro self self' ⟨⟩
    rfl
  | cons p pairs ih =>
    intro self self' h
    rw [List.foldlM_cons] at h
    obtain ⟨mid, hmid, h⟩ := bind_eq_ok.mp h
    rw [List.map_cons, List.mem_cons, not_or] at hne
    rw [ih (hne.imp_right And.right) h, balanceOf_doUpdate hmid (hne.imp_right And.left)]

/-! ### Batches and single pairs -/

theorem zip_map_fst_map_snd {α β : Type} (l : List (α × β)) :
    (l.map Prod.fst).zip (l.map Prod.snd) = l := by
  rw [List.zip_map', List.map_id']

/-- A batch of pairs runs the loop over them. -/
theorem update_pairs (self : Erc1155) (src dst : Address) (pairs : List (U256 × U256)) :
    self._update src dst (pairs.map Prod.fst) (pairs.map Prod.snd) =
      pairs.foldlM (fun self p => self.doUpdate src dst p.1 p.2) self := by
  have hlen : ¬(pairs.map Prod.fst).length ≠ (pairs.map Prod.snd).length := by simp
  rw [_update, requireEqualArraysLength, if_neg hlen, ok_bind, zip_map_fst_map_snd]

/-- A batch of one pair is that pair. -/
theorem update_single (self : Erc1155) (src dst : Address) (id value : U256) :
    self._update src dst [id] [value] = self.doUpdate src dst id value :=
  (update_pairs self src dst [(id, value)]).trans (bind_pure _)

/-- **A batch is its pairs, one after another**: it succeeds when they do, with the same balances,
and fails as the first of them that fails. Between two accounts, be they equal or different, it
leaves what is held of each id as it was, and it changes no balances but those of the two accounts
at the ids listed. A batch that fails has written some of its pairs, and leaves nothing of them. -/
theorem update_eq_singles (self : Erc1155) (src dst : Address) (pairs : List (U256 × U256)) :
    self._update src dst (pairs.map Prod.fst) (pairs.map Prod.snd) =
      pairs.foldlM (fun self p => self._update src dst [p.1] [p.2]) self ∧
    (∀ self', self._update src dst (pairs.map Prod.fst) (pairs.map Prod.snd) = .ok self' →
      (src ≠ 0 → dst ≠ 0 → ∀ id, self'.held id = self.held id) ∧
      (∀ account id, (account ≠ src ∧ account ≠ dst) ∨ id ∉ pairs.map Prod.fst →
        self'.balanceOf account id = self.balanceOf account id) ∧
      (updateInPlace src dst (pairs.map Prod.fst) (pairs.map Prod.snd)).transact self =
        (.ok (), self')) ∧
    ∀ e, self._update src dst (pairs.map Prod.fst) (pairs.map Prod.snd) = .error e →
      (updateInPlace src dst (pairs.map Prod.fst) (pairs.map Prod.snd)).transact self =
        (.error e, self) := by
  obtain ⟨hsuccess, hfailure⟩ := InPlace.transact_eq
    (updateInPlace src dst (pairs.map Prod.fst) (pairs.map Prod.snd)) self
  rw [result_updateInPlace] at hsuccess hfailure
  refine ⟨?_, fun self' h => ⟨fun hsrc hdst id => ?_, fun account id hne => ?_, hsuccess self' h⟩,
    hfailure⟩
  · simp only [update_pairs, update_single]
  · have hheld := held_update h id
    rw [if_pos hsrc, if_pos hdst] at hheld
    exact Nat.add_right_cancel hheld
  · rw [update_pairs] at h
    exact balanceOf_foldlM hne h

end Erc1155

end ContractsStylus
