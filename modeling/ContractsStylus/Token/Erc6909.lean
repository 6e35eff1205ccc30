import ContractsStylus.Library.Runs
import ContractsStylus.Library.Tally
import ContractsStylus.Primitives

/-!
# ERC-6909

The minimal multi-token: balances for each owner and id, operators, who may move everything of an
owner, and allowances for one id.

## Frames

A call names a few balances, allowances and operators, and leaves all others alone. The three sets
are predicates on a transaction, and the statement about runs has the form that an entry which no
transaction names is as it was. What a transaction does to the entries it names is then a matter of
single calls.

Who may take from an owner is decided at the time of the call: the owner, her operators, and those
with an allowance of the id, which is spent unless it is infinite. Operators spend no allowance.

## Main definitions

* `Erc6909`, `Erc6909.Error` — the storage and the errors
* `Erc6909._update` — the one function that changes balances
* `Erc6909.Call`, `Erc6909.exec`, `Erc6909.machine` — the calls of the interface
* `Erc6909.Tx.Takes`, `Erc6909.Tx.NamesBalance`, `Erc6909.Tx.NamesAllowance`,
  `Erc6909.Tx.NamesOperator` — what a call is about

## Main results

* `Erc6909._update_eq_ok` — what an update moves
* `Erc6909.spendFrom_eq_ok` — what a transfer by somebody else needs and spends
* `Erc6909.spending_authorized` — who moves tokens, and what calls leave alone
-/

namespace ContractsStylus

/-- State of an `Erc6909` contract. -/
structure Erc6909 where
  /-- Balance of each owner and id. -/
  balances : StorageMap Address (StorageMap U256 U256)
  /-- Whom each owner has approved as an operator. -/
  operatorApprovals : StorageMap Address (StorageMap Address Bool)
  /-- What each owner allows each spender to spend of each id. -/
  allowances : StorageMap Address (StorageMap Address (StorageMap U256 U256))

namespace Erc6909

inductive Error
  | InsufficientBalance (sender : Address) (balance needed id : U256)
  | InsufficientAllowance (spender : Address) (allowance needed id : U256)
  | InvalidApprover (approver : Address)
  | InvalidReceiver (receiver : Address)
  | InvalidSender (sender : Address)
  | InvalidSpender (spender : Address)
  deriving DecidableEq, Repr

/-- The contract after deployment. -/
def empty : Erc6909 := ⟨fun _ _ => 0, fun _ _ => false, fun _ _ _ => 0⟩

def balanceOf (self : Erc6909) (owner : Address) (id : U256) : U256 := self.balances owner id

def allowance (self : Erc6909) (owner spender : Address) (id : U256) : U256 :=
  self.allowances owner spender id

def isOperator (self : Erc6909) (owner spender : Address) : Bool :=
  self.operatorApprovals owner spender

/-- `self.balances.setter(owner).setter(id).set(balance)`. -/
def setBalance (self : Erc6909) (owner : Address) (id balance : U256) : Erc6909 :=
  { self with
    balances := Function.update self.balances owner
      (Function.update (self.balances owner) id balance) }

/-- `self.allowances.setter(owner).setter(spender).insert(id, amount)`. -/
def setAllowance (self : Erc6909) (owner spender : Address) (id amount : U256) : Erc6909 :=
  { self with
    allowances := Function.update self.allowances owner
      (Function.update (self.allowances owner) spender
        (Function.update (self.allowances owner spender) id amount)) }

def _approve (self : Erc6909) (owner spender : Address) (id amount : U256) :
    Result Error (Bool × Erc6909) :=
  if owner = 0 then .err (.InvalidApprover 0)
  else if spender = 0 then .err (.InvalidSpender 0)
  else .ok (true, self.setAllowance owner spender id amount)

def _setOperator (self : Erc6909) (owner spender : Address) (approved : Bool) :
    Result Error (Bool × Erc6909) :=
  if owner = 0 then .err (.InvalidApprover 0)
  else if spender = 0 then .err (.InvalidSpender 0)
  else .ok (true, { self with
    operatorApprovals := Function.update self.operatorApprovals owner
      (Function.update (self.operatorApprovals owner) spender approved) })

/-- The first half of `_update`, where `amount` is taken from `src`. -/
def debit (self : Erc6909) (src : Address) (id amount : U256) : Result Error Erc6909 :=
  if src ≠ 0 then
    let srcBalance := self.balances src id
    if srcBalance < amount then .err (.InsufficientBalance src srcBalance amount id)
    else .ok (self.setBalance src id (srcBalance - amount))
  else .ok self

/-- The second half of `_update`, where `amount` is given to `dst`. -/
def credit (self : Erc6909) (dst : Address) (id amount : U256) : Result Error Erc6909 :=
  if dst ≠ 0 then do
    let balance ← addAssignChecked (self.balances dst id) amount
      "should not exceed `U256::MAX` for `balances`"
    pure (self.setBalance dst id balance)
  else .ok self

/-- Transfer `amount` of `id` from `src` to `dst`; a zero `src` mints and a zero `dst` burns. -/
def _update (self : Erc6909) (src dst : Address) (id amount : U256) : Result Error Erc6909 := do
  let self ← self.debit src id amount
  self.credit dst id amount

def _transfer (self : Erc6909) (src dst : Address) (id amount : U256) : Result Error Erc6909 :=
  if src = 0 then .err (.InvalidSender 0)
  else if dst = 0 then .err (.InvalidReceiver 0)
  else self._update src dst id amount

def _spendAllowance (self : Erc6909) (owner spender : Address) (id amount : U256) :
    Result Error Erc6909 :=
  let currentAllowance := self.allowance owner spender id
  if currentAllowance < MAX 256 then
    if currentAllowance < amount then
      .err (.InsufficientAllowance spender currentAllowance amount id)
    else .ok (self.setAllowance owner spender id (currentAllowance - amount))
  else .ok self

def _mint (self : Erc6909) (dst : Address) (id amount : U256) : Result Error Erc6909 :=
  if dst = 0 then .err (.InvalidReceiver 0) else self._update 0 dst id amount

def _burn (self : Erc6909) (src : Address) (id amount : U256) : Result Error Erc6909 :=
  if src = 0 then .err (.InvalidSender 0) else self._update src 0 id amount

/-! ### The interface

Every function answers `true` when it succeeds. An operator and an owner are not asked for an
allowance; `spendFrom` is that distinction, which the source makes in the middle of
`transfer_from`. -/

def approve (self : Erc6909) (sender spender : Address) (id amount : U256) :
    Result Error (Bool × Erc6909) :=
  self._approve sender spender id amount

def setOperator (self : Erc6909) (sender spender : Address) (approved : Bool) :
    Result Error (Bool × Erc6909) := do
  let self ← Prod.snd <$> self._setOperator sender spender approved
  pure (true, self)

def transfer (self : Erc6909) (sender receiver : Address) (id amount : U256) :
    Result Error (Bool × Erc6909) := do
  let self ← self._transfer sender receiver id amount
  pure (true, self)

/-- What `transfer_from` spends before it transfers: nothing for the owner and its operators. -/
def spendFrom (self : Erc6909) (caller src : Address) (id amount : U256) :
    Result Error Erc6909 :=
  if src ≠ caller ∧ ¬self.isOperator src caller then self._spendAllowance src caller id amount
  else .ok self

/-- `transfer_from` by `caller`; its argument `sender` is `src` here. -/
def transferFrom (self : Erc6909) (caller src receiver : Address) (id amount : U256) :
    Result Error (Bool × Erc6909) := do
  let self ← self.spendFrom caller src id amount
  let self ← self._transfer src receiver id amount
  pure (true, self)

/-- The calls of the interface that change the storage. -/
inductive Call
  | approve (spender : Address) (id amount : U256)
  | setOperator (spender : Address) (approved : Bool)
  | transfer (receiver : Address) (id amount : U256)
  | transferFrom (src receiver : Address) (id amount : U256)
  deriving DecidableEq

/-- A call with its caller. -/
structure Tx where
  caller : Address
  call : Call
  deriving DecidableEq

/-- A call, with what it answers. -/
def exec (self : Erc6909) (tx : Tx) : Result Error (Bool × Erc6909) :=
  match tx.call with
  | .approve spender id amount => self.approve tx.caller spender id amount
  | .setOperator spender approved => self.setOperator tx.caller spender approved
  | .transfer receiver id amount => self.transfer tx.caller receiver id amount
  | .transferFrom src receiver id amount => self.transferFrom tx.caller src receiver id amount

/-- The contract as a machine. -/
def machine : Machine Erc6909 Tx (Revert Error) := ⟨fun self tx => Prod.snd <$> self.exec tx⟩

/-! ### What a call is about

These predicates read the call only, not the state. The last three are what frames are stated
with. -/

/-- The call asks for `amount` of `id` from `owner`. -/
def Tx.Takes (tx : Tx) (owner : Address) (id amount : U256) : Prop :=
  (tx.caller = owner ∧ ∃ receiver, tx.call = .transfer receiver id amount) ∨
    ∃ receiver, tx.call = .transferFrom owner receiver id amount

/-- The call moves tokens of `id` from or to `owner`. -/
def Tx.NamesBalance (tx : Tx) (owner : Address) (id : U256) : Prop :=
  match tx.call with
  | .transfer receiver i _ => id = i ∧ (owner = tx.caller ∨ owner = receiver)
  | .transferFrom src receiver i _ => id = i ∧ (owner = src ∨ owner = receiver)
  | _ => False

/-- The call sets what `owner` allows `spender` to spend of `id`, or spends from it. -/
def Tx.NamesAllowance (tx : Tx) (owner spender : Address) (id : U256) : Prop :=
  match tx.call with
  | .approve s i _ => owner = tx.caller ∧ spender = s ∧ id = i
  | .transferFrom src _ i _ => owner = src ∧ spender = tx.caller ∧ id = i
  | _ => False

/-- The call says whether `spender` is an operator of `owner`. -/
def Tx.NamesOperator (tx : Tx) (owner spender : Address) : Prop :=
  match tx.call with
  | .setOperator s _ => owner = tx.caller ∧ spender = s
  | _ => False

variable {self self' t : Erc6909} {src dst owner spender caller a : Address} {id amount i b : U256}
  {ok : Bool} {tx : Tx}

/-! ### Balances as numbers

Balances are words that wrap in the source where it has shown that they do not; each half of an
update is brought to numbers once. The halves are summed up separately, since a mint is the second
half alone and a burn the first. -/

/-- The balances of one id, as numbers. -/
def held (self : Erc6909) (id : U256) (owner : Address) : ℕ := (self.balances owner id).toNat

theorem held_setBalance (self : Erc6909) (owner : Address) (id b i : U256) :
    (self.setBalance owner id b).held i =
      if i = id then Function.update (self.held id) owner b.toNat else self.held i := by
  funext a
  rw [held, setBalance]
  dsimp only
  rw [update_update_apply]
  by_cases hi : i = id
  · rw [if_pos hi, Function.update_apply, hi]
    simp only [and_true]
    split <;> rfl
  · rw [if_neg hi, if_neg fun heq => hi heq.2, held]

/-- Neither half of an update touches allowances and operators. -/
def SameRights (self t : Erc6909) : Prop :=
  t.allowances = self.allowances ∧ t.operatorApprovals = self.operatorApprovals

/-- What the first half of an update takes. -/
theorem debit_eq_ok (h : self.debit src id amount = .ok t) :
    (src ≠ 0 → amount.toNat ≤ self.held id src) ∧ self.SameRights t ∧ ∀ i, t.held i =
      if src ≠ 0 ∧ i = id then Function.update (self.held id) src (self.held id src - amount.toNat)
      else self.held i := by
  rw [debit] at h
  by_cases hsrc : src = 0
  · rw [if_neg (not_not.mpr hsrc)] at h
    obtain rfl := Except.ok.inj h
    exact ⟨fun hne => absurd hsrc hne, ⟨rfl, rfl⟩, fun i => (if_neg fun hne => hne.1 hsrc).symm⟩
  · rw [if_pos hsrc, guard_eq_ok, not_lt] at h
    obtain ⟨hle, h⟩ := h
    obtain rfl := Except.ok.inj h
    refine ⟨fun _ => BitVec.le_def.mp hle, ⟨rfl, rfl⟩, fun i => ?_⟩
    rw [held_setBalance, BitVec.toNat_sub_of_le hle]
    simp only [ne_eq, hsrc, not_false_eq_true, true_and]
    rfl

theorem sum_debit (h : self.debit src id amount = .ok t) :
    ∑ a, t.held id a + (if src = 0 then 0 else amount.toNat) = ∑ a, self.held id a := by
  obtain ⟨hle, -, hheld⟩ := debit_eq_ok h
  rw [hheld id]
  by_cases hsrc : src = 0
  · rw [if_neg fun hne => hne.1 hsrc, if_pos hsrc, Nat.add_zero]
  · have hsum := Tally.sum_update (fun n : ℕ => n) (self.held id) src
      (self.held id src - amount.toNat)
    have hle := hle hsrc
    rw [if_pos ⟨hsrc, rfl⟩, if_neg hsrc]
    omega

/-- What the second half gives. -/
theorem credit_eq_ok (h : self.credit dst id amount = .ok t) :
    self.SameRights t ∧ ∀ i, t.held i =
      if dst ≠ 0 ∧ i = id then Function.update (self.held id) dst (self.held id dst + amount.toNat)
      else self.held i := by
  rw [credit] at h
  by_cases hdst : dst = 0
  · rw [if_neg (not_not.mpr hdst)] at h
    obtain rfl := Except.ok.inj h
    exact ⟨⟨rfl, rfl⟩, fun i => (if_neg fun hne => hne.1 hdst).symm⟩
  · rw [if_pos hdst] at h
    obtain ⟨balance, hadd, h⟩ := bind_eq_ok.mp h
    obtain rfl := pure_eq_ok.mp h
    refine ⟨⟨rfl, rfl⟩, fun i => ?_⟩
    rw [held_setBalance, addAssignChecked_eq_ok.mp hadd]
    simp only [ne_eq, hdst, not_false_eq_true, true_and]
    rfl

theorem sum_credit (h : self.credit dst id amount = .ok t) :
    ∑ a, t.held id a = ∑ a, self.held id a + (if dst = 0 then 0 else amount.toNat) := by
  obtain ⟨-, hheld⟩ := credit_eq_ok h
  rw [hheld id]
  by_cases hdst : dst = 0
  · rw [if_neg fun hne => hne.1 hdst, if_pos hdst, Nat.add_zero]
  · have hsum := Tally.sum_update (fun n : ℕ => n) (self.held id) dst
      (self.held id dst + amount.toNat)
    rw [if_pos ⟨hdst, rfl⟩, if_neg hdst]
    omega

theorem SameRights.trans {s : Erc6909} (h : self.SameRights t) (h' : t.SameRights s) :
    self.SameRights s :=
  ⟨h'.1.trans h.1, h'.2.trans h.2⟩

/-- **What an update does**: the rights and the other ids are left alone, and the balances add up to
what they did before, less what is burned and with what is minted. -/
theorem _update_eq_ok (h : self._update src dst id amount = .ok self') :
    (src ≠ 0 → amount.toNat ≤ self.held id src) ∧ self.SameRights self' ∧
      (∀ i, i ≠ id → self'.held i = self.held i) ∧
      ∑ a, self'.held id a + (if dst = 0 then amount.toNat else 0) =
        ∑ a, self.held id a + (if src = 0 then amount.toNat else 0) := by
  obtain ⟨t, ht, h⟩ := bind_eq_ok.mp h
  obtain ⟨hle, hrights, hheld⟩ := debit_eq_ok ht
  obtain ⟨hrights', hheld'⟩ := credit_eq_ok h
  refine ⟨hle, hrights.trans hrights', fun i hi => ?_, ?_⟩
  · rw [hheld' i, if_neg fun heq => hi heq.2, hheld i, if_neg fun heq => hi heq.2]
  · have hdebit := sum_debit ht
    have hcredit := sum_credit h
    split_ifs at * <;> omega

/-- **A transfer moves exactly its amount.** -/
theorem _transfer_eq_ok (h : self._transfer src dst id amount = .ok self') :
    amount.toNat ≤ self.held id src ∧ self.SameRights self' ∧
      (∀ i, i ≠ id → self'.held i = self.held i) ∧
      self'.held id = Tally.move (self.held id) src dst amount.toNat := by
  rw [_transfer, guard_eq_ok, guard_eq_ok] at h
  obtain ⟨hsrc, hdst, h⟩ := h
  obtain ⟨hle, hrights, hother, -⟩ := _update_eq_ok h
  refine ⟨hle hsrc, hrights, hother, ?_⟩
  obtain ⟨t, ht, h⟩ := bind_eq_ok.mp h
  rw [(credit_eq_ok h).2 id, if_pos ⟨hdst, rfl⟩, (debit_eq_ok ht).2.2 id, if_pos ⟨hsrc, rfl⟩,
    Tally.move]

/-! ### Rights

An allowance is one entry among three maps, and what is spent from it is a matter of that entry
only. -/

theorem allowance_setAllowance (self : Erc6909) (owner spender : Address) (id amount : U256)
    (o s : Address) (i : U256) : (self.setAllowance owner spender id amount).allowance o s i =
      if o = owner ∧ s = spender ∧ i = id then amount else self.allowance o s i := by
  rw [allowance, setAllowance]
  dsimp only
  rw [update_update_apply]
  by_cases h : o = owner ∧ s = spender
  · obtain ⟨rfl, rfl⟩ := h
    rw [if_pos ⟨rfl, rfl⟩, Function.update_apply]
    simp only [true_and]
    rfl
  · rw [if_neg h, if_neg fun heq => h ⟨heq.1, heq.2.1⟩]
    rfl

/-- **An allowance covers what is spent from it**, and becomes smaller by that if it is not
infinite. -/
theorem _spendAllowance_eq_ok (h : self._spendAllowance owner spender id amount = .ok self') :
    amount ≤ self.allowance owner spender id ∧ self'.balances = self.balances ∧
      self'.operatorApprovals = self.operatorApprovals ∧ ∀ o s i, self'.allowance o s i =
        if (o = owner ∧ s = spender ∧ i = id) ∧ self.allowance owner spender id ≠ MAX 256 then
          self.allowance owner spender id - amount
        else self.allowance o s i := by
  rw [_spendAllowance] at h
  have hmax : self.allowance owner spender id < MAX 256 ↔
      self.allowance owner spender id ≠ MAX 256 := by
    rw [lt_iff_le_and_ne, and_iff_right (not_lt.mp BitVec.not_allOnes_lt)]
  by_cases hfinite : self.allowance owner spender id = MAX 256
  · rw [if_neg (mt hmax.mp (not_not.mpr hfinite))] at h
    obtain rfl := Except.ok.inj h
    refine ⟨?_, rfl, rfl, fun o s i => (if_neg fun hne => hne.2 hfinite).symm⟩
    rw [hfinite]
    exact not_lt.mp BitVec.not_allOnes_lt
  · rw [if_pos (hmax.mpr hfinite), guard_eq_ok] at h
    obtain ⟨hle, h⟩ := h
    obtain rfl := Except.ok.inj h
    refine ⟨not_lt.mp hle, rfl, rfl, fun o s i => ?_⟩
    rw [allowance_setAllowance]
    simp only [ne_eq, hfinite, not_false_eq_true, and_true]

/-- The caller of a transfer has a right to it: it is the owner, or an operator of the owner, or it
spends an allowance. -/
theorem spendFrom_eq_ok (h : self.spendFrom caller src id amount = .ok t) :
    t.balances = self.balances ∧ t.operatorApprovals = self.operatorApprovals ∧
      (((src = caller ∨ self.isOperator src caller) ∧ t.allowances = self.allowances) ∨
        amount ≤ self.allowance src caller id ∧ ∀ o s i, t.allowance o s i =
          if (o = src ∧ s = caller ∧ i = id) ∧ self.allowance src caller id ≠ MAX 256 then
            self.allowance src caller id - amount
          else self.allowance o s i) ∧
      (src = caller ∨ self.isOperator src caller → t.allowances = self.allowances) := by
  rw [spendFrom] at h
  by_cases hright : src = caller ∨ self.isOperator src caller
  · rw [if_neg (by rwa [ne_eq, ← not_or, not_not])] at h
    obtain rfl := Except.ok.inj h
    exact ⟨rfl, rfl, Or.inl ⟨hright, rfl⟩, fun _ => rfl⟩
  · rw [if_pos (by rwa [ne_eq, ← not_or])] at h
    obtain ⟨hle, hbalances, hoperators, hallowance⟩ := _spendAllowance_eq_ok h
    exact ⟨hbalances, hoperators, Or.inr ⟨hle, hallowance⟩, fun h => absurd h hright⟩

/-! ### Calls

`exec_cases` says all that a call can do; each of the other lemmas looks at one part of the state
and asks which calls can change it there. -/

/-- **What a call does.** It writes one allowance or one operator, or it moves what it says with the
right to do so. -/
theorem exec_cases (h : self.exec tx = .ok (ok, self')) :
    (∃ spender id amount, tx.call = .approve spender id amount ∧
      self' = self.setAllowance tx.caller spender id amount) ∨
    (∃ spender approved, tx.call = .setOperator spender approved ∧
      self' = { self with
        operatorApprovals := Function.update self.operatorApprovals tx.caller
          (Function.update (self.operatorApprovals tx.caller) spender approved) }) ∨
    (∃ receiver id amount, tx.call = .transfer receiver id amount ∧
      self._transfer tx.caller receiver id amount = .ok self') ∨
    ∃ src receiver id amount t, tx.call = .transferFrom src receiver id amount ∧
      self.spendFrom tx.caller src id amount = .ok t ∧
      t._transfer src receiver id amount = .ok self' := by
  rcases tx with ⟨caller, call⟩
  cases call with
  | approve spender id amount =>
    change self._approve caller spender id amount = _ at h
    rw [_approve, guard_eq_ok, guard_eq_ok] at h
    obtain ⟨-, rfl⟩ := Prod.mk.inj (Except.ok.inj h.2.2)
    exact Or.inl ⟨spender, id, amount, rfl, rfl⟩
  | setOperator spender approved =>
    obtain ⟨s, hs, h⟩ := bind_eq_ok.mp h
    obtain ⟨-, rfl⟩ := Prod.mk.inj (pure_eq_ok.mp h)
    obtain ⟨answer, hs⟩ := snd_map_eq_ok.mp hs
    rw [_setOperator, guard_eq_ok, guard_eq_ok] at hs
    obtain ⟨-, rfl⟩ := Prod.mk.inj (Except.ok.inj hs.2.2)
    exact Or.inr (Or.inl ⟨spender, approved, rfl, rfl⟩)
  | transfer receiver id amount =>
    obtain ⟨s, hs, h⟩ := bind_eq_ok.mp h
    obtain ⟨-, rfl⟩ := Prod.mk.inj (pure_eq_ok.mp h)
    exact Or.inr (Or.inr (Or.inl ⟨receiver, id, amount, rfl, hs⟩))
  | transferFrom src receiver id amount =>
    obtain ⟨t, ht, h⟩ := bind_eq_ok.mp h
    obtain ⟨s, hs, h⟩ := bind_eq_ok.mp h
    obtain ⟨-, rfl⟩ := Prod.mk.inj (pure_eq_ok.mp h)
    exact Or.inr (Or.inr (Or.inr ⟨src, receiver, id, amount, t, rfl, ht, hs⟩))

/-- **What a call moves**: nothing, or an amount from one account to another. -/
theorem exec_held (h : self.exec tx = .ok (ok, self')) :
    self'.held = self.held ∨ ∃ src receiver id amount, tx.Takes src id amount ∧
      (tx.NamesBalance src id ∧ tx.NamesBalance receiver id) ∧ amount.toNat ≤ self.held id src ∧
      (∀ i, i ≠ id → self'.held i = self.held i) ∧
      self'.held id = Tally.move (self.held id) src receiver amount.toNat := by
  rcases tx with ⟨caller, call⟩
  rcases exec_cases h with ⟨spender, id, amount, -, rfl⟩ | ⟨spender, approved, -, rfl⟩ |
    ⟨receiver, id, amount, rfl, h⟩ | ⟨src, receiver, id, amount, t, rfl, ht, h⟩
  · exact Or.inl rfl
  · exact Or.inl rfl
  · obtain ⟨hle, -, hother, hmove⟩ := _transfer_eq_ok h
    exact Or.inr ⟨caller, receiver, id, amount, Or.inl ⟨rfl, receiver, rfl⟩,
      ⟨⟨rfl, Or.inl rfl⟩, ⟨rfl, Or.inr rfl⟩⟩, hle, hother, hmove⟩
  · obtain ⟨hbalances, -⟩ := spendFrom_eq_ok ht
    have hheld : t.held = self.held := by
      funext i a
      rw [held, held, hbalances]
    obtain ⟨hle, -, hother, hmove⟩ := _transfer_eq_ok h
    rw [hheld] at hle hother hmove
    exact Or.inr ⟨src, receiver, id, amount, Or.inr ⟨receiver, rfl⟩,
      ⟨⟨rfl, Or.inl rfl⟩, ⟨rfl, Or.inr rfl⟩⟩, hle, hother, hmove⟩

/-- The calls move tokens and make none. -/
theorem sum_held_exec (h : self.exec tx = .ok (ok, self')) (id : U256) :
    ∑ a, self'.held id a = ∑ a, self.held id a := by
  rcases exec_held h with heq | ⟨src, receiver, i, amount, -, -, hle, hother, hmove⟩
  · rw [heq]
  · rcases eq_or_ne id i with rfl | hne
    · rw [hmove, Tally.sum_move hle]
    · rw [hother id hne]

/-- A call changes the balances it names. -/
theorem held_exec (h : self.exec tx = .ok (ok, self')) (hnot : ¬tx.NamesBalance owner id) :
    self'.held id owner = self.held id owner := by
  rcases exec_held h with heq | ⟨src, receiver, i, amount, -, ⟨hsrc, hreceiver⟩, -, hother, hmove⟩
  · rw [heq]
  · rcases eq_or_ne id i with rfl | hne
    · rw [hmove]
      refine Tally.move_of_ne ?_ ?_
      · rintro rfl
        exact hnot hsrc
      · rintro rfl
        exact hnot hreceiver
    · rw [hother id hne]

/-- A call changes the operators it names. -/
theorem isOperator_exec (h : self.exec tx = .ok (ok, self'))
    (hnot : ¬tx.NamesOperator owner spender) :
    self'.isOperator owner spender = self.isOperator owner spender := by
  rcases tx with ⟨caller, call⟩
  rcases exec_cases h with ⟨s, id, amount, -, rfl⟩ | ⟨s, approved, rfl, rfl⟩ |
    ⟨receiver, id, amount, rfl, h⟩ | ⟨src, receiver, id, amount, t, rfl, ht, h⟩
  · rfl
  · exact (update_update_apply ..).trans (if_neg hnot)
  · rw [isOperator, (_transfer_eq_ok h).2.1.2]
    rfl
  · rw [isOperator, (_transfer_eq_ok h).2.1.2, (spendFrom_eq_ok ht).2.1]
    rfl

/-- A call changes the allowances it names. -/
theorem allowance_exec (h : self.exec tx = .ok (ok, self'))
    (hnot : ¬tx.NamesAllowance owner spender id) :
    self'.allowance owner spender id = self.allowance owner spender id := by
  rcases tx with ⟨caller, call⟩
  rcases exec_cases h with ⟨s, i, amount, rfl, rfl⟩ | ⟨s, approved, -, rfl⟩ |
    ⟨receiver, i, amount, rfl, h⟩ | ⟨src, receiver, i, amount, t, rfl, ht, h⟩
  · exact (allowance_setAllowance ..).trans (if_neg hnot)
  · rfl
  · rw [allowance, (_transfer_eq_ok h).2.1.1]
    rfl
  · rw [allowance, (_transfer_eq_ok h).2.1.1]
    obtain ⟨-, -, ⟨-, heq⟩ | ⟨-, heq⟩, -⟩ := spendFrom_eq_ok ht
    · rw [heq]
      rfl
    · exact (heq owner spender id).trans (if_neg fun hcond => hnot hcond.1)

/-- **A balance falls by what a call takes of it**, and only then. -/
theorem takes_of_held_lt (h : self.exec tx = .ok (ok, self'))
    (hlt : self'.held id owner < self.held id owner) :
    ∃ amount, tx.Takes owner id amount ∧
      self'.held id owner + amount.toNat = self.held id owner := by
  rcases exec_held h with heq | ⟨src, receiver, i, amount, htakes, -, hle, hother, hmove⟩
  · exact absurd (congrFun (congrFun heq id) owner) hlt.ne
  obtain rfl : id = i := by
    by_contra hne
    exact hlt.ne (congrFun (hother id hne) owner)
  obtain rfl : owner = src := by
    by_contra hne
    rw [hmove] at hlt
    exact not_le.mpr hlt (Tally.le_move hne)
  have hne : owner ≠ receiver := by
    rintro rfl
    rw [hmove, Tally.move_self hle] at hlt
    exact lt_irrefl _ hlt
  refine ⟨amount, htakes, ?_⟩
  rw [hmove, Tally.move_src hne, Nat.sub_add_cancel hle]

/-- What the caller of a transfer that takes tokens may rely on: it is the owner or an operator, and
then no allowance changes, or its allowance covers the amount and falls by it. -/
theorem authorized_of_takes (h : self.exec tx = .ok (ok, self'))
    (htakes : tx.Takes owner id amount) :
    (tx.caller = owner ∨ self.isOperator owner tx.caller → self'.allowances = self.allowances) ∧
      (tx.caller = owner ∨ self.isOperator owner tx.caller ∨
        amount ≤ self.allowance owner tx.caller id ∧
          self'.allowance owner tx.caller id = if self.allowance owner tx.caller id ≠ MAX 256 then
            self.allowance owner tx.caller id - amount
          else self.allowance owner tx.caller id) := by
  rcases tx with ⟨caller, call⟩
  rcases htakes with ⟨rfl, receiver, rfl⟩ | ⟨receiver, rfl⟩
  · obtain ⟨s, hs, h⟩ := bind_eq_ok.mp h
    obtain ⟨-, rfl⟩ := Prod.mk.inj (pure_eq_ok.mp h)
    exact ⟨fun _ => (_transfer_eq_ok hs).2.1.1, Or.inl rfl⟩
  · obtain ⟨t, ht, h⟩ := bind_eq_ok.mp h
    obtain ⟨s, hs, h⟩ := bind_eq_ok.mp h
    obtain ⟨-, rfl⟩ := Prod.mk.inj (pure_eq_ok.mp h)
    obtain ⟨-, -, hspend, hsame⟩ := spendFrom_eq_ok ht
    have hallowances := (_transfer_eq_ok hs).2.1.1
    refine ⟨fun hright => ?_, ?_⟩
    · exact hallowances.trans (hsame (hright.imp_left Eq.symm))
    · rcases hspend with ⟨hright, -⟩ | ⟨hle, heq⟩
      · exact hright.elim (fun heq => Or.inl heq.symm) fun hoperator => Or.inr (Or.inl hoperator)
      · refine Or.inr (Or.inr ⟨hle, ?_⟩)
        rw [allowance, hallowances]
        refine (heq owner caller id).trans ?_
        simp only [true_and]

/-! ### Runs

A run is any list of transactions, and one that fails is a part of it that changes nothing. The
theorem speaks of the next transaction after a run, so the state before it is any that can be
reached from where one began. -/

/-- One operation of a run succeeds, or leaves everything as it was. -/
theorem run_concat_cases (s : Erc6909) (txs : List Tx) (tx : Tx) :
    (∃ ok, (machine.run s txs).exec tx = .ok (ok, machine.run s (txs ++ [tx]))) ∨
      machine.run s (txs ++ [tx]) = machine.run s txs := by
  rw [Machine.run_append, Machine.run_cons, Machine.run_nil]
  rcases machine.step_cases (machine.run s txs) tx with ⟨s', hexec, hstep⟩ | hstep
  · obtain ⟨answer, hexec⟩ := snd_map_eq_ok.mp hexec
    exact Or.inl ⟨answer, by rw [hstep, hexec]⟩
  · exact Or.inr hstep

theorem sum_held_run (s : Erc6909) (txs : List Tx) (id : U256) :
    ∑ a, (machine.run s txs).held id a = ∑ a, s.held id a := by
  have hstep : ∀ t t', ∀ tx ∈ txs, ∑ a, t.held id a = ∑ a, s.held id a →
      machine.exec t tx = .ok t' → ∑ a, t'.held id a = ∑ a, s.held id a := by
    intro t t' tx _ ht hexec
    obtain ⟨answer, hexec⟩ := snd_map_eq_ok.mp hexec
    exact (sum_held_exec hexec id).trans ht
  exact machine.run_invariant hstep rfl

/-- **Tokens are spent by whom they are entrusted to**, in every run of calls by any callers, from
any state on. The balance of an owner for an id falls by the amount of a call that asks for it, made
by the owner, by an operator of the owner at that time, or by a spender whose allowance covers the
amount and falls by it unless it is infinite. Transfers by the owner or an operator change no
allowance, no call changes a balance, an allowance or an operator that it does not name, and the
balances of every id add up to what they did at the start. -/
theorem spending_authorized (s : Erc6909) (txs : List Tx) (tx : Tx) (t t' : Erc6909)
    (ht : t = machine.run s txs) (ht' : t' = machine.run s (txs ++ [tx])) :
    (∀ owner id, t'.balanceOf owner id < t.balanceOf owner id →
      ∃ amount, tx.Takes owner id amount ∧
        (t'.balanceOf owner id).toNat + amount.toNat = (t.balanceOf owner id).toNat ∧
        (tx.caller = owner ∨ t.isOperator owner tx.caller ∨
          amount ≤ t.allowance owner tx.caller id ∧
            (t.allowance owner tx.caller id ≠ MAX 256 →
              (t'.allowance owner tx.caller id).toNat + amount.toNat =
                (t.allowance owner tx.caller id).toNat) ∧
            (t.allowance owner tx.caller id = MAX 256 →
              t'.allowance owner tx.caller id = MAX 256))) ∧
    (∀ owner id amount, tx.Takes owner id amount →
      tx.caller = owner ∨ t.isOperator owner tx.caller →
      ∀ o s i, t'.allowance o s i = t.allowance o s i) ∧
    (∀ owner id, ¬tx.NamesBalance owner id → t'.balanceOf owner id = t.balanceOf owner id) ∧
    (∀ owner spender id, ¬tx.NamesAllowance owner spender id →
      t'.allowance owner spender id = t.allowance owner spender id) ∧
    (∀ owner spender, ¬tx.NamesOperator owner spender →
      t'.isOperator owner spender = t.isOperator owner spender) ∧
    ∀ id, ∑ a, (t'.balanceOf a id).toNat = ∑ a, (s.balanceOf a id).toNat := by
  have hsum : ∀ id, ∑ a, (t'.balanceOf a id).toNat = ∑ a, (s.balanceOf a id).toNat := by
    rw [ht']
    exact sum_held_run s (txs ++ [tx])
  rcases run_concat_cases s txs tx with ⟨ok, hexec⟩ | hsame
  · rw [← ht, ← ht'] at hexec
    refine ⟨fun owner id hlt => ?_, fun owner id amount htakes hright o s i => ?_,
      fun owner id hnot => BitVec.eq_of_toNat_eq (held_exec hexec hnot),
      fun owner spender id hnot => allowance_exec hexec hnot,
      fun owner spender hnot => isOperator_exec hexec hnot, hsum⟩
    · obtain ⟨amount, htakes, hfallen⟩ := takes_of_held_lt hexec (BitVec.lt_def.mp hlt)
      refine ⟨amount, htakes, hfallen,
        (authorized_of_takes hexec htakes).2.imp_right (Or.imp_right ?_)⟩
      rintro ⟨hcover, hallowance⟩
      refine ⟨hcover, fun hfinite => ?_, fun hinfinite => ?_⟩
      · rw [hallowance, if_pos hfinite]
        exact BitVec.toNat_sub_add_cancel (BitVec.le_def.mp hcover)
      · rw [hallowance, if_neg (not_not.mpr hinfinite), hinfinite]
    · rw [allowance, (authorized_of_takes hexec htakes).1 hright]
      rfl
  · rw [← ht, ← ht'] at hsame
    subst hsame
    exact ⟨fun owner id hlt => absurd hlt (lt_irrefl _), fun _ _ _ _ _ _ _ _ => rfl,
      fun _ _ _ => rfl, fun _ _ _ _ => rfl, fun _ _ _ => rfl, hsum⟩

/-- Account `2` spends 30 of the 50 that account `1` allows it. -/
theorem spending_authorized_spender : ∃ s t : Erc6909,
    (s.balanceOf 1 7, s.allowance 1 2 7) = (100, 50) ∧
    (t.balanceOf 1 7).toNat + 30 = (s.balanceOf 1 7).toNat ∧
    (t.allowance 1 2 7).toNat + 30 = (s.allowance 1 2 7).toNat := by
  obtain ⟨hspent, -⟩ := spending_authorized ((empty.setBalance 1 7 100).setAllowance 1 2 7 50) []
    ⟨2, .transferFrom 1 3 7 30⟩ _ _ rfl rfl
  obtain ⟨amount, htakes, hbalance, hright⟩ := hspent 1 7 (by decide +kernel)
  obtain ⟨receiver, hcall⟩ := htakes.resolve_left fun hown => absurd hown.1 (by decide)
  obtain ⟨-, -, -, rfl⟩ := Call.transferFrom.inj hcall
  obtain ⟨-, hallowance, -⟩ := (hright.resolve_left (by decide)).resolve_left (by decide +kernel)
  exact ⟨_, _, by decide +kernel, hbalance, hallowance (by decide +kernel)⟩

end Erc6909

end ContractsStylus
