import ContractsStylus.Library.Runs
import ContractsStylus.Library.Tally
import ContractsStylus.Primitives

/-!
# ERC-20

The fungible token: a balance for each account, allowances, and the total supply.

All changes of balances go through `_update`, which takes a value from one side and gives it to
the other. In between, the value is in nobody's hands: it is part of the supply and of no balance.
`Owed` is the invariant with such a value left over, so that both halves keep it and neither of
the unchecked operations wraps.

## Numbers and words

Additions to balances are not checked in the source, on the ground that no balance exceeds the
supply. That is an invariant of all balances together, so the lemmas about one update assume that
the contract is `Conserved`, and prove that it still is. With it every equation between words
becomes one between numbers, which is how what a call does is stated: `held` as a function, and what
a transfer moves as `Tally.move`.

A transfer to oneself is not excluded. The source reads the balance of the recipient after it has
written that of the sender, and so does the model.

## Main definitions

* `Erc20`, `Erc20.Error` — the storage and the errors
* `Erc20._update` — the one function that changes balances
* `Erc20.Call`, `Erc20.exec` — the calls of the interface
* `Erc20.Conserved` — the balances add up to the supply

## Main results

* `Erc20.Conserved._update` — an update keeps the balances adding up to the supply
* `Erc20.Conserved._transfer_held` — what a transfer moves
* `Erc20.Conserved.exec` — every call keeps the balances adding up to the supply
-/

namespace ContractsStylus

/-- State of an ERC-20 token. -/
structure Erc20 where
  balances : StorageMap Address U256
  /-- What each owner allows each spender to spend. -/
  allowances : StorageMap Address (StorageMap Address U256)
  totalSupply : U256

namespace Erc20

inductive Error
  | InsufficientBalance (sender : Address) (balance needed : U256)
  | InvalidSender (sender : Address)
  | InvalidReceiver (receiver : Address)
  | InsufficientAllowance (spender : Address) (allowance needed : U256)
  | InvalidSpender (spender : Address)
  | InvalidApprover (approver : Address)
  deriving DecidableEq, Repr

/-- The contract after deployment. -/
def empty : Erc20 := ⟨fun _ => 0, fun _ _ => 0, 0⟩

def balanceOf (self : Erc20) (account : Address) : U256 := self.balances account

def allowance (self : Erc20) (owner spender : Address) : U256 := self.allowances owner spender

/-- `self.balances.setter(account).set(balance)`. -/
def setBalance (self : Erc20) (account : Address) (balance : U256) : Erc20 :=
  { self with balances := Function.update self.balances account balance }

/-- The first half of `_update`, where `value` is taken from `src`. -/
def debit (self : Erc20) (src : Address) (value : U256) : Result Error Erc20 :=
  if src = 0 then do
    -- overflow check required: the rest of the code assumes that the supply never overflows
    let totalSupply ← addAssignChecked self.totalSupply value
      "should not exceed `U256::MAX` for `total_supply`"
    pure { self with totalSupply }
  else
    let srcBalance := self.balances src
    if srcBalance < value then .err (.InsufficientBalance src srcBalance value)
    else pure (self.setBalance src (srcBalance - value))

/-- The second half of `_update`, where `value` is given to `dst`. -/
def credit (self : Erc20) (dst : Address) (value : U256) : Erc20 :=
  if dst = 0 then { self with totalSupply := self.totalSupply - value }
  else self.setBalance dst (self.balances dst + value)

/-- Transfer `value` from `src` to `dst`; a zero `src` mints and a zero `dst` burns. -/
def _update (self : Erc20) (src dst : Address) (value : U256) : Result Error Erc20 := do
  let self ← self.debit src value
  pure (self.credit dst value)

def _mint (self : Erc20) (account : Address) (value : U256) : Result Error Erc20 :=
  if account = 0 then .err (.InvalidReceiver 0) else self._update 0 account value

def _burn (self : Erc20) (account : Address) (value : U256) : Result Error Erc20 :=
  if account = 0 then .err (.InvalidSender 0) else self._update account 0 value

def _transfer (self : Erc20) (src dst : Address) (value : U256) : Result Error Erc20 :=
  if src = 0 then .err (.InvalidSender 0)
  else if dst = 0 then .err (.InvalidReceiver 0)
  else self._update src dst value

def _approve (self : Erc20) (owner spender : Address) (value : U256) :
    Result Error (Bool × Erc20) :=
  if owner = 0 then .err (.InvalidApprover 0)
  else if spender = 0 then .err (.InvalidSpender 0)
  else .ok (true, { self with
    allowances := Function.update self.allowances owner
      (Function.update (self.allowances owner) spender value) })

def _spendAllowance (self : Erc20) (owner spender : Address) (value : U256) :
    Result Error Erc20 :=
  let currentAllowance := self.allowance owner spender
  if currentAllowance ≠ MAX 256 then
    if currentAllowance < value then
      .err (.InsufficientAllowance spender currentAllowance value)
    else do
      let (_, self) ← self._approve owner spender (currentAllowance - value)
      pure self
  else .ok self

/-! ### The interface

`Call.Moves` is what a caller from another contract may expect of a call: which balances it takes to
which. It is stated for functions on accounts, so that other tokens can be asked for the same. -/

def transfer (self : Erc20) (sender dst : Address) (value : U256) :
    Result Error (Bool × Erc20) := do
  let self ← self._transfer sender dst value
  pure (true, self)

def approve (self : Erc20) (sender spender : Address) (value : U256) :
    Result Error (Bool × Erc20) :=
  self._approve sender spender value

def transferFrom (self : Erc20) (sender src dst : Address) (value : U256) :
    Result Error (Bool × Erc20) := do
  let self ← self._spendAllowance src sender value
  let self ← self._transfer src dst value
  pure (true, self)

/-- The calls of the interface that change the storage. -/
inductive Call
  | transfer (dst : Address) (value : U256)
  | approve (spender : Address) (value : U256)
  | transferFrom (src dst : Address) (value : U256)
  deriving DecidableEq

/-- A call, with what it answers. -/
def exec (self : Erc20) (sender : Address) : Call → Result Error (Bool × Erc20)
  | .transfer dst value => self.transfer sender dst value
  | .approve spender value => self.approve sender spender value
  | .transferFrom src dst value => self.transferFrom sender src dst value

/-- Whose tokens a call moves, if it moves any. -/
def Call.payer (sender : Address) : Call → Address
  | .transferFrom src _ _ => src
  | _ => sender

/-- The call takes the balances `f` of a token to `g`: it moves what it says and nothing else. -/
def Call.Moves (sender : Address) (f g : Address → ℕ) : Call → Prop
  | .transfer dst value => value.toNat ≤ f sender ∧ g = Tally.move f sender dst value.toNat
  | .approve _ _ => g = f
  | .transferFrom src dst value => value.toNat ≤ f src ∧ g = Tally.move f src dst value.toNat

/-! ### Balances as numbers

A debit from the zero address is a mint and a credit to it a burn. With that, the two halves have
four cases, and each of them moves the sum of the balances or the supply. -/

/-- The balances, as numbers. -/
def held (self : Erc20) (account : Address) : ℕ := (self.balances account).toNat

/-- All of the supply but `value` is in the balances. -/
def Owed (self : Erc20) (value : ℕ) : Prop := ∑ a, self.held a + value = self.totalSupply.toNat

/-- The balances add up to the supply. -/
def Conserved (self : Erc20) : Prop := ∑ a, self.held a = self.totalSupply.toNat

variable {self self' t : Erc20} {sender src dst owner spender account : Address} {value b : U256}
  {ok : Bool}

theorem conserved_empty : empty.Conserved := by simp [Conserved, held, empty]

theorem held_setBalance :
    (self.setBalance account b).held = Function.update self.held account b.toNat :=
  Function.comp_update BitVec.toNat self.balances account b

theorem sum_held_setBalance :
    ∑ a, (self.setBalance account b).held a + self.held account = ∑ a, self.held a + b.toNat :=
  Tally.sum_update BitVec.toNat self.balances account b

/-- A mint takes the value from nobody and makes the supply larger. -/
theorem debit_zero_eq_ok (h : self.debit 0 value = .ok t) :
    t.totalSupply.toNat = self.totalSupply.toNat + value.toNat ∧
      t = { self with totalSupply := t.totalSupply } := by
  rw [debit, if_pos rfl, bind_eq_ok] at h
  obtain ⟨s, hs, ht⟩ := h
  obtain rfl := pure_eq_ok.mp ht
  exact ⟨addAssignChecked_eq_ok.mp hs, rfl⟩

theorem debit_eq_ok (hsrc : src ≠ 0) (h : self.debit src value = .ok t) :
    value.toNat ≤ self.held src ∧ t = self.setBalance src (self.balances src - value) := by
  rw [debit, if_neg hsrc, guard_eq_ok, pure_eq_ok, not_lt, BitVec.le_def] at h
  exact ⟨h.1, h.2.symm⟩

/-- The first half of an update leaves its value in nobody's hands. -/
theorem Conserved.debit (hc : self.Conserved) (h : self.debit src value = .ok t) :
    t.Owed value.toNat := by
  rw [Conserved] at hc
  rw [Owed]
  by_cases hsrc : src = 0
  · subst hsrc
    obtain ⟨hsupply, ht⟩ := debit_zero_eq_ok h
    rw [hsupply, ht, ← hc]
    rfl
  · obtain ⟨hle, rfl⟩ := debit_eq_ok hsrc h
    have hsum : ∑ a, (self.setBalance src (self.balances src - value)).held a + self.held src =
        ∑ a, self.held a + (self.balances src - value).toNat := sum_held_setBalance
    have hsub := BitVec.toNat_sub_add_cancel hle
    rw [held] at hsum
    change _ = self.totalSupply.toNat
    omega

/-- A balance with the value in nobody's hands is part of the supply. -/
theorem Owed.le_totalSupply (h : t.Owed value.toNat) (dst : Address) :
    t.held dst + value.toNat ≤ t.totalSupply.toNat := by
  rw [← h]
  exact Nat.add_le_add_right (Tally.le_sum t.held dst) _

theorem Owed.credit_zero (h : t.Owed value.toNat) :
    (t.credit 0 value).totalSupply.toNat + value.toNat = t.totalSupply.toNat := by
  rw [credit, if_pos rfl]
  exact BitVec.toNat_sub_add_cancel ((Nat.le_add_left ..).trans (h.le_totalSupply 0))

theorem Owed.credit_held (h : t.Owed value.toNat) (hdst : dst ≠ 0) :
    (t.credit dst value).held = Function.update t.held dst (t.held dst + value.toNat) := by
  rw [credit, if_neg hdst, held_setBalance, BitVec.toNat_add_of_lt]
  · rfl
  · exact (h.le_totalSupply dst).trans_lt t.totalSupply.isLt

/-- The second half gives it to somebody, or takes it off the supply. -/
theorem Owed.credit (h : t.Owed value.toNat) : (t.credit dst value).Conserved := by
  rw [Conserved]
  by_cases hdst : dst = 0
  · subst hdst
    have hsupply := h.credit_zero
    have hheld : (t.credit 0 value).held = t.held := by
      rw [Erc20.credit, if_pos rfl]
      rfl
    rw [Owed] at h
    rw [hheld]
    omega
  · have hsum := Tally.sum_update id t.held dst (t.held dst + value.toNat)
    have hsupply : (t.credit dst value).totalSupply = t.totalSupply := by
      rw [Erc20.credit, if_neg hdst]
      rfl
    rw [h.credit_held hdst, hsupply, ← (h : _ = _)]
    simp only [id_eq] at hsum
    omega

/-! ### Updates

What `_mint`, `_burn` and `_transfer` do, forwards and backwards: what has happened when they
succeed, and what is enough for them to succeed. -/

/-- **An update keeps the balances adding up to the supply.** -/
theorem Conserved._update (hc : self.Conserved) (h : self._update src dst value = .ok self') :
    self'.Conserved := by
  rw [Erc20._update, bind_eq_ok] at h
  obtain ⟨t, ht, h⟩ := h
  rw [← pure_eq_ok.mp h]
  exact (hc.debit ht).credit

theorem Conserved._mint (hc : self.Conserved) (h : self._mint account value = .ok self') :
    self'.Conserved := by
  rw [Erc20._mint, guard_eq_ok] at h
  exact hc._update h.2

theorem Conserved._burn (hc : self.Conserved) (h : self._burn account value = .ok self') :
    self'.Conserved := by
  rw [Erc20._burn, guard_eq_ok] at h
  exact hc._update h.2

theorem _mint_totalSupply (h : self._mint account value = .ok self') :
    self'.totalSupply.toNat = self.totalSupply.toNat + value.toNat := by
  rw [Erc20._mint, guard_eq_ok, Erc20._update, bind_eq_ok] at h
  obtain ⟨haccount, t, ht, h⟩ := h
  obtain ⟨hsupply, -⟩ := debit_zero_eq_ok ht
  rw [← pure_eq_ok.mp h, credit, if_neg haccount]
  exact hsupply

/-- Burning does not wrap the supply, since nobody holds more than all do. -/
theorem Conserved._burn_totalSupply (hc : self.Conserved)
    (h : self._burn account value = .ok self') :
    self'.totalSupply.toNat + value.toNat = self.totalSupply.toNat := by
  rw [Erc20._burn, guard_eq_ok, Erc20._update, bind_eq_ok] at h
  obtain ⟨haccount, t, ht, h⟩ := h
  obtain ⟨-, hdebit⟩ := debit_eq_ok haccount ht
  rw [← pure_eq_ok.mp h, (hc.debit ht).credit_zero, hdebit]
  rfl

/-- A mint gives its value to the account. -/
theorem Conserved._mint_held (hc : self.Conserved) (h : self._mint account value = .ok self') :
    self'.held = Function.update self.held account (self.held account + value.toNat) := by
  rw [Erc20._mint, guard_eq_ok, Erc20._update, bind_eq_ok] at h
  obtain ⟨haccount, t, ht, h⟩ := h
  obtain ⟨-, hdebit⟩ := debit_zero_eq_ok ht
  have hheld : t.held = self.held := by
    rw [hdebit]
    rfl
  rw [← pure_eq_ok.mp h, (hc.debit ht).credit_held haccount, hheld]

/-- A burn takes it from the account. -/
theorem _burn_held (h : self._burn account value = .ok self') :
    value.toNat ≤ self.held account ∧
      self'.held = Function.update self.held account (self.held account - value.toNat) := by
  rw [Erc20._burn, guard_eq_ok, Erc20._update, bind_eq_ok] at h
  obtain ⟨haccount, t, ht, h⟩ := h
  obtain ⟨hle, hdebit⟩ := debit_eq_ok haccount ht
  refine ⟨hle, ?_⟩
  rw [← pure_eq_ok.mp h, credit, if_pos rfl, hdebit]
  change (self.setBalance account (self.balances account - value)).held = _
  rw [held_setBalance, BitVec.toNat_sub_of_le (BitVec.le_def.mpr hle)]
  rfl

theorem _transfer_eq_ok (h : self._transfer src dst value = .ok self') :
    src ≠ 0 ∧ dst ≠ 0 ∧ self._update src dst value = .ok self' := by
  rwa [_transfer, guard_eq_ok, guard_eq_ok] at h

/-- A mint succeeds as long as the supply is a word after it. -/
theorem exists_mint (haccount : account ≠ 0)
    (h : self.totalSupply.toNat + value.toNat < 2 ^ 256) :
    ∃ s, self._mint account value = .ok s := by
  have hadd : checkedAdd self.totalSupply value = some (self.totalSupply + value) := if_pos h
  rw [Erc20._mint, if_neg haccount, Erc20._update, debit, if_pos rfl, addAssignChecked, hadd]
  exact ⟨_, rfl⟩

/-- What an account has, it can burn. -/
theorem exists_burn (haccount : account ≠ 0) (h : value.toNat ≤ self.held account) :
    ∃ s, self._burn account value = .ok s := by
  rw [Erc20._burn, if_neg haccount, Erc20._update, debit, if_neg haccount]
  dsimp only
  rw [if_neg (not_lt.mpr (BitVec.le_def.mpr h))]
  exact ⟨_, rfl⟩

/-- What an account has, it can transfer. -/
theorem exists_transfer (hsrc : src ≠ 0) (hdst : dst ≠ 0) (hle : value.toNat ≤ self.held src) :
    ∃ s, self._transfer src dst value = .ok s := by
  rw [_transfer, if_neg hsrc, if_neg hdst, Erc20._update, debit, if_neg hsrc]
  dsimp only
  rw [if_neg (not_lt.mpr (BitVec.le_def.mpr hle))]
  exact ⟨_, rfl⟩

theorem _transfer_totalSupply (h : self._transfer src dst value = .ok self') :
    self'.totalSupply = self.totalSupply := by
  obtain ⟨hsrc, hdst, h⟩ := _transfer_eq_ok h
  rw [Erc20._update, bind_eq_ok] at h
  obtain ⟨t, ht, h⟩ := h
  obtain ⟨-, rfl⟩ := debit_eq_ok hsrc ht
  rw [← pure_eq_ok.mp h, credit, if_neg hdst]
  rfl

/-- **A transfer moves exactly its value.** -/
theorem Conserved._transfer_held (hc : self.Conserved)
    (h : self._transfer src dst value = .ok self') :
    value.toNat ≤ self.held src ∧ self'.held = Tally.move self.held src dst value.toNat := by
  obtain ⟨hsrc, hdst, h⟩ := _transfer_eq_ok h
  rw [Erc20._update, bind_eq_ok] at h
  obtain ⟨t, ht, h⟩ := h
  obtain ⟨hle, hdebit⟩ := debit_eq_ok hsrc ht
  refine ⟨hle, ?_⟩
  have hheld : t.held = Function.update self.held src (self.held src - value.toNat) := by
    rw [hdebit, held_setBalance, BitVec.toNat_sub_of_le (BitVec.le_def.mpr hle)]
    rfl
  rw [← pure_eq_ok.mp h, (hc.debit ht).credit_held hdst, hheld, Tally.move]

/-! ### Allowances

An infinite allowance is not spent. -/

theorem _update_allowance (h : self._update src dst value = .ok self') (o s : Address) :
    self'.allowance o s = self.allowance o s := by
  rw [Erc20._update, bind_eq_ok] at h
  obtain ⟨t, ht, h⟩ := h
  have hdebit : t.allowances = self.allowances := by
    by_cases hsrc : src = 0
    · subst hsrc
      rw [(debit_zero_eq_ok ht).2]
    · rw [(debit_eq_ok hsrc ht).2]
      rfl
  rw [← pure_eq_ok.mp h, credit, allowance, allowance, ← hdebit]
  split <;> rfl

/-- An approval writes one allowance. -/
theorem _approve_eq_ok (h : self._approve owner spender value = .ok (ok, self')) (o s : Address) :
    self'.allowance o s = if o = owner ∧ s = spender then value else self.allowance o s := by
  rw [_approve, guard_eq_ok, guard_eq_ok] at h
  cases h.2.2
  exact update_update_apply ..

/-- **An allowance covers what is spent from it**, and becomes smaller by that if it is not
infinite. -/
theorem _spendAllowance_allowance (h : self._spendAllowance owner spender value = .ok self') :
    value ≤ self.allowance owner spender ∧ ∀ o s, self'.allowance o s =
      if (o = owner ∧ s = spender) ∧ self.allowance owner spender ≠ MAX 256 then
        self.allowance owner spender - value
      else self.allowance o s := by
  rw [_spendAllowance] at h
  split at h
  · rename_i hfinite
    rw [guard_eq_ok, bind_eq_ok] at h
    obtain ⟨hle, ⟨ok, t⟩, happrove, h⟩ := h
    obtain rfl := pure_eq_ok.mp h
    refine ⟨not_lt.mp hle, fun o s => ?_⟩
    simp only [_approve_eq_ok happrove o s, ne_eq, hfinite, not_false_eq_true, and_true]
  · rename_i hinfinite
    cases h
    refine ⟨?_, fun o s => (if_neg fun hfinite => hinfinite hfinite.2).symm⟩
    rw [not_not.mp hinfinite]
    exact not_lt.mp BitVec.not_allOnes_lt

/-! ### Calls

The calls of the interface, with what they leave alone: the supply always, the balances of accounts
that do not pay or receive, and the allowances of other pairs. -/

/-- What spending an allowance leaves alone. -/
theorem _spendAllowance_eq_ok (h : self._spendAllowance owner spender value = .ok self') :
    self' = { self with allowances := self'.allowances } := by
  rw [_spendAllowance] at h
  split at h
  · rw [guard_eq_ok, bind_eq_ok] at h
    obtain ⟨-, ⟨_, s⟩, happrove, h⟩ := h
    rw [_approve, guard_eq_ok, guard_eq_ok] at happrove
    cases happrove.2.2
    rw [← pure_eq_ok.mp h]
  · cases h
    rfl

/-- What an approval leaves alone. -/
theorem _approve_frame (h : self._approve owner spender value = .ok (ok, self')) :
    self' = { self with allowances := self'.allowances } := by
  rw [_approve, guard_eq_ok, guard_eq_ok] at h
  cases h.2.2
  rfl

/-- What a call does: allowances aside, it is a transfer or nothing. -/
theorem exec_eq_ok {c : Call} (h : self.exec sender c = .ok (ok, self')) :
    ok = true ∧ ∃ s : Erc20, s = { self with allowances := s.allowances } ∧
      match c with
      | .transfer dst value => s._transfer sender dst value = .ok self'
      | .approve _ _ => self' = s
      | .transferFrom src dst value => s._transfer src dst value = .ok self' := by
  cases c with
  | transfer dst value =>
    rw [exec, transfer, bind_eq_ok] at h
    obtain ⟨s, hs, h⟩ := h
    cases pure_eq_ok.mp h
    exact ⟨rfl, self, rfl, hs⟩
  | approve spender value =>
    rw [exec, approve, _approve, guard_eq_ok, guard_eq_ok] at h
    cases h.2.2
    exact ⟨rfl, _, rfl, rfl⟩
  | transferFrom src dst value =>
    rw [exec, transferFrom, bind_eq_ok] at h
    obtain ⟨s, hs, h⟩ := h
    rw [bind_eq_ok] at h
    obtain ⟨s', hs', h⟩ := h
    cases pure_eq_ok.mp h
    exact ⟨rfl, s, _spendAllowance_eq_ok hs, hs'⟩

theorem exec_totalSupply {c : Call} (h : self.exec sender c = .ok (ok, self')) :
    self'.totalSupply = self.totalSupply := by
  obtain ⟨-, s, hs, h⟩ := exec_eq_ok h
  have hsupply : s.totalSupply = self.totalSupply := by rw [hs]
  cases c with
  | transfer dst value => exact (_transfer_totalSupply h).trans hsupply
  | approve spender value => rw [h, hsupply]
  | transferFrom src dst value => exact (_transfer_totalSupply h).trans hsupply

/-- **A successful call moves exactly what it says**, and keeps the balances adding up to the
supply. -/
theorem Conserved.exec {c : Call} (hc : self.Conserved)
    (h : self.exec sender c = .ok (ok, self')) :
    self'.Conserved ∧ c.Moves sender self.held self'.held := by
  obtain ⟨-, s, hs, h⟩ := exec_eq_ok h
  have hsc : s.Conserved := by
    rw [hs]
    exact hc
  have hheld : s.held = self.held := by
    rw [hs]
    rfl
  cases c with
  | transfer dst value =>
    obtain ⟨-, -, hupdate⟩ := _transfer_eq_ok h
    exact ⟨hsc._update hupdate, hheld ▸ hsc._transfer_held h⟩
  | approve spender value =>
    obtain rfl : self' = s := h
    exact ⟨hsc, hheld⟩
  | transferFrom src dst value =>
    obtain ⟨-, -, hupdate⟩ := _transfer_eq_ok h
    exact ⟨hsc._update hupdate, hheld ▸ hsc._transfer_held h⟩

/-- Accounts that do not pay lose nothing. -/
theorem Call.Moves.le_of_ne {c : Call} {f g : Address → ℕ} (h : c.Moves sender f g)
    (hne : account ≠ c.payer sender) : f account ≤ g account := by
  cases c with
  | transfer dst value => exact h.2 ▸ Tally.le_move hne
  | approve spender value => exact (congrFun h account).ge
  | transferFrom src dst value => exact h.2 ▸ Tally.le_move hne

end Erc20

end ContractsStylus
