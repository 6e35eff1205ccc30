import ContractsStylus.Access.Ownable
import ContractsStylus.Library.Vesting
import ContractsStylus.Token.GuardedToken

/-!
# VestingWallet

A wallet that releases Ether and ERC-20 tokens to its owner on a linear schedule. What has vested
is computed from the balance and from what was already released, whenever somebody asks; no
deposit is recorded.

The wallet is modelled on a chain: its own storage, its Ether, the time, and the storage of the
other contracts. `this` is the address of the wallet. Its owner is called when it is paid in Ether
and may do anything then, calls of the wallet included.

## Receipts

To say that the releases add up one has to say what was ever received, and the contract does not
know it. So there are two history variables, which no function reads: one for the Ether, and one
for the ERC-20 at the address `token`.

Only what brings something to the wallet is counted: a deposit, a call of the token by somebody
else, another transaction, and a release of some other token, which may call anybody. A release of
the token itself counts as a receipt only where the wallet is its own owner and pays itself, and
this holds for the Ether too. So the books balance because a release moves what it books, and not
by their definition; a release that booked its amount without paying it would leave more in the
wallet than was received.

## Rounding

A share of the total is vested at a time strictly between the start and the end, and the quotient is
rounded down. The source multiplies in the width of a word, and panics if the product does not fit;
the schedule of the library is on numbers and never panics. `vestedAmount_eq_ok` is the link: where
the contract answers, it answers with that number. Releases are then sums of differences of a
function that grows with the time and with the total.

## Main definitions

* `VestingWallet`, `VestingWallet.Error`, `VestingWallet.Chain`
* `VestingWallet.vestingSchedule`, `releaseEth`, `releaseErc20` — the functions of the contract
* `VestingWallet.Op`, `VestingWallet.exec`, `VestingWallet.Run` — what a run is made of
* `VestingWallet.InOrder`, `VestingWallet.TokenInOrder` — the books, in Ether and in the token

## Main results

* `VestingWallet.vestedAmount_eq_ok` — the schedule is exact, or the call panics
* `VestingWallet.InOrder.exec`, `VestingWallet.TokenInOrder.exec` — operations keep the books
* `VestingWallet.release_accounting` — so that releases add up
-/

namespace ContractsStylus

/-- State of a `VestingWallet` contract. -/
structure VestingWallet where
  ownable : Ownable
  /-- Amount of Ether already released. -/
  released : U256
  /-- Amount of ERC-20 tokens already released. -/
  erc20Released : StorageMap Address U256
  /-- Start timestamp. -/
  start : U64
  /-- Vesting duration. -/
  duration : U64

namespace VestingWallet

inductive Error
  | UnauthorizedAccount (account : Address)
  | InvalidOwner (owner : Address)
  | ReleaseEtherFailed (reason : Bytes)
  | FailedCall
  | SafeErc20FailedOperation (token : Address)
  | SafeErc20FailedDecreaseAllowance (spender : Address)
      (currentAllowance requestedDecrease : U256)
  | InvalidToken (token : Address)
  deriving DecidableEq, Repr

/-- `From<ownable::Error>`. -/
def Error.ofOwnable : Ownable.Error → Error
  | .UnauthorizedAccount account => .UnauthorizedAccount account
  | .InvalidOwner owner => .InvalidOwner owner

/-- `From<stylus_sdk::call::Error>`. -/
def Error.ofCall : CallError → Error
  | .AbiDecodingFailed => .FailedCall
  | .Revert reason => .ReleaseEtherFailed reason

/-- `From<safe_erc20::Error>`. -/
def Error.ofSafeErc20 : SafeErc20.Error → Error
  | .SafeErc20FailedOperation token => .SafeErc20FailedOperation token
  | .SafeErc20FailedDecreaseAllowance spender currentAllowance requestedDecrease =>
    .SafeErc20FailedDecreaseAllowance spender currentAllowance requestedDecrease

/-- A wallet on a chain. -/
structure Chain (τ : Type) where
  wallet : VestingWallet
  /-- `contract::balance()`. -/
  balance : U256
  /-- `block::timestamp()`. -/
  timestamp : U64
  /-- The storage of the other contracts. -/
  tokens : τ
  /-- All the Ether that the wallet ever received. -/
  received : ℕ
  /-- All the tokens that it ever received. -/
  erc20Received : ℕ

/-- What an account does that is sent Ether. -/
abbrev Accounts (τ : Type) := Reentrant.Callback (Address × U256) (Chain τ) Bytes CallError

def constructor (beneficiary : Address) (startTimestamp durationSeconds : U64) :
    Result Error VestingWallet := do
  let ownable ← (Ownable.constructor beneficiary).mapErr Error.ofOwnable
  pure ⟨ownable, 0, fun _ => 0, startTimestamp, durationSeconds⟩

/-! ### The schedule -/

namespace IVestingWallet

def start (self : VestingWallet) : U256 := self.start.setWidth 256

def duration (self : VestingWallet) : U256 := self.duration.setWidth 256

def end_ (self : VestingWallet) : U256 := start self + duration self

end IVestingWallet

/-- The vesting formula. -/
def vestingSchedule (self : VestingWallet) (totalAllocation : U256) (timestamp : U64) :
    Result Error U256 :=
  let timestamp := timestamp.setWidth 256
  if timestamp < IVestingWallet.start self then .ok 0
  else if timestamp ≥ IVestingWallet.end_ self then .ok totalAllocation
  else do
    let elapsed := timestamp - IVestingWallet.start self
    let scaledAllocation ← expect (checkedMul totalAllocation elapsed)
      "scaled allocation exceeds `U256::MAX`"
    expect (checkedDiv scaledAllocation (IVestingWallet.duration self)) "Division by zero"

/-- What `vested_amount_eth` and `vested_amount_erc20` share. -/
def vestedAmount (self : VestingWallet) (balance released : U256) (timestamp : U64) :
    Result Error U256 := do
  let totalAllocation ← expect (checkedAdd balance released)
    "total allocation should not exceed `U256::MAX`"
  self.vestingSchedule totalAllocation timestamp

section Functions

variable {τ : Type} (T : Tokens τ) (this : Address)

/-! ### Ether

`self.balance` is what the wallet has when a call begins. The owner is called with the state in
which the release is recorded and paid, and whatever it returns is the state after the release; an
owner that fails takes everything back. -/

def vestedAmountEth (self : Chain τ) (timestamp : U64) : Result Error U256 :=
  self.wallet.vestedAmount self.balance self.wallet.released timestamp

def releasableEth (self : Chain τ) : Result Error U256 := do
  let vested ← vestedAmountEth self self.timestamp
  pure (vested - self.wallet.released)

/-- Ether leaves the wallet. What it sends to itself it receives. -/
def Chain.pay (self : Chain τ) (dst : Address) (value : U256) : Chain τ :=
  if dst = this then { self with received := self.received + value.toNat }
  else { self with balance := self.balance - value }

/-- `call(Call::new_in(self).value(value), dst, &[])`. -/
def call (accounts : Accounts τ) (self : Chain τ) (dst : Address) (value : U256) :
    Except CallError (Chain τ) :=
  if self.balance < value then .error (.Revert [])
  else match accounts (dst, value) (self.pay this dst value) with
    | .ok (_, self) => .ok self
    | .error e => .error e

/-- The released amount is recorded before the owner is called. -/
def releaseEth (accounts : Accounts τ) (self : Chain τ) : Result Error (Chain τ) := do
  let amount ← releasableEth self
  let released ← addAssignChecked self.wallet.released amount
    "total released should not exceed `U256::MAX`"
  let self := { self with wallet := { self.wallet with released } }
  let owner := self.wallet.ownable.owner
  match call this accounts self owner amount with
  | .ok self => .ok self
  | .error e => .err (Error.ofCall e)

/-! ### ERC-20 tokens

The same three functions with the balance read from the token. The answer of the token to a transfer
goes through `SafeErc20`, so that a token without an answer is released as well. -/

def vestedAmountErc20 (self : Chain τ) (token : Address) (timestamp : U64) : Result Error U256 :=
  match T.balanceOf self.tokens token this with
  | .ok balance => self.wallet.vestedAmount balance (self.wallet.erc20Released token) timestamp
  | .error _ => .err (.InvalidToken token)

def releasableErc20 (self : Chain τ) (token : Address) : Result Error U256 := do
  let vested ← vestedAmountErc20 T this self token self.timestamp
  pure (vested - self.wallet.erc20Released token)

def releaseErc20 (self : Chain τ) (token : Address) : Result Error (Chain τ) := do
  let amount ← releasableErc20 T this self token
  let owner := self.wallet.ownable.owner
  let released ← addAssignChecked (self.wallet.erc20Released token) amount
    "total released should not exceed `U256::MAX`"
  let wallet :=
    { self.wallet with erc20Released := Function.update self.wallet.erc20Released token released }
  let tokens ← (SafeErc20.safeTransfer T this self.tokens token owner amount).mapErr
    Error.ofSafeErc20
  pure { self with wallet, tokens }

end Functions

/-! ### Runs -/

/-- The calls of a wallet, and what happens around it. -/
inductive Op (τ : Type)
  /-- Somebody sends Ether. -/
  | receive (value : U256)
  /-- A block with a later timestamp begins. -/
  | advance (timestamp : U64)
  | releaseEth
  | releaseErc20 (token : Address)
  | transferOwnership (sender newOwner : Address)
  | renounceOwnership (sender : Address)
  /-- A call of the token by somebody else. -/
  | token (sender : Address) (c : Erc20.Call)
  /-- Anything else that others do. -/
  | other (tokens : τ)

section Runs

variable {τ : Type} (T : Tokens τ) (this token : Address) (ledger allowed : τ → Address → ℕ)

/-- The storage of the other contracts changes; what the wallet gets is recorded. -/
def Chain.record (self : Chain τ) (tokens : τ) : Chain τ :=
  { self with
    tokens
    erc20Received := self.erc20Received + (ledger tokens this - ledger self.tokens this) }

/-- The wallet has paid `value` of the token to `dst`. Nothing is received then, but for what it
pays to itself. -/
def Chain.paidErc20 (self : Chain τ) (dst : Address) (value : U256) : Chain τ :=
  if dst = this then { self with erc20Received := self.erc20Received + value.toNat } else self

/-- The state after an operation. There is no more Ether than fits a word, and time does not run
backwards. A call of the token counts when it is answered with a success. -/
def exec (op : Op τ) (accounts : Accounts τ) (self : Chain τ) : Result Error (Chain τ) :=
  match op with
  | .receive value => do
    let balance ← expect (checkedAdd self.balance value) "no such amount of Ether"
    pure { self with balance, received := self.received + value.toNat }
  | .advance timestamp =>
    if timestamp < self.timestamp then .panic "time does not run backwards"
    else .ok { self with timestamp }
  | .releaseEth => releaseEth this accounts self
  | .releaseErc20 callee => do
    let amount ← releasableErc20 T this self callee
    let self' ← releaseErc20 T this self callee
    if callee = token then pure (self'.paidErc20 this self.wallet.ownable.owner amount)
    else pure { self.record this ledger self'.tokens with wallet := self'.wallet }
  | .transferOwnership sender newOwner => do
    let ownable ← (self.wallet.ownable.transferOwnership sender newOwner).mapErr Error.ofOwnable
    pure { self with wallet := { self.wallet with ownable } }
  | .renounceOwnership sender => do
    let ownable ← (self.wallet.ownable.renounceOwnership sender).mapErr Error.ofOwnable
    pure { self with wallet := { self.wallet with ownable } }
  | .token sender c => do
    let tokens ← (SafeErc20.callOptionalReturn T sender self.tokens token c).mapErr
      Error.ofSafeErc20
    pure (self.record this ledger tokens)
  | .other tokens => .ok (self.record this ledger tokens)

/-- The token is called by others than the wallet, and whatever else they do, they take nothing
from it and get no allowance of it. -/
def Permitted (self : Chain τ) (op : Op τ) : Prop :=
  match op with
  | .token sender _ => sender ≠ this
  | .other tokens => ledger self.tokens this ≤ ledger tokens this ∧
      ∀ spender, allowed tokens spender ≤ allowed self.tokens spender
  | _ => True

/-- Runs, whatever the accounts do that are paid in Ether. -/
abbrev Run : Chain τ → Chain τ → Prop :=
  Reentrant.Run (exec T this token ledger) (Permitted this ledger allowed)

/-- A wallet after its deployment, with what its address had before. -/
def deploy (beneficiary : Address) (startTimestamp durationSeconds : U64) (balance : U256)
    (timestamp : U64) (tokens : τ) : Result Error (Chain τ) := do
  let wallet ← constructor beneficiary startTimestamp durationSeconds
  pure ⟨wallet, balance, timestamp, tokens, balance.toNat, ledger tokens this⟩

end Runs

/-! ### The schedule is exact

The three cases are those of the source. Only in the middle one is there a product, so `Fits` asks
for its size there, and for that of the sum in all of them. -/

section Schedule

variable {self : VestingWallet} {totalAllocation balance released v : U256} {timestamp : U64}

/-- The schedule of the wallet. -/
def schedule (self : VestingWallet) (received now : ℕ) : ℕ :=
  Vesting.schedule self.start.toNat self.duration.toNat received now

/-- The total allocation fits a word, and so does what it is scaled to while it vests. -/
def Fits (self : VestingWallet) (total : ℕ) (timestamp : U64) : Prop :=
  total < 2 ^ 256 ∧ (self.start.toNat ≤ timestamp.toNat →
    timestamp.toNat < self.start.toNat + self.duration.toNat →
      total * (timestamp.toNat - self.start.toNat) < 2 ^ 256)

theorem setWidth_toNat (x : U64) : (x.setWidth 256).toNat = x.toNat :=
  BitVec.toNat_setWidth_of_le (by decide)

/-- The end of the vesting is a word. -/
theorem end_toNat : (IVestingWallet.end_ self).toNat = self.start.toNat + self.duration.toNat := by
  have hstart := self.start.isLt
  have hduration := self.duration.isLt
  rw [IVestingWallet.end_, IVestingWallet.start, IVestingWallet.duration,
    BitVec.toNat_add_of_lt, setWidth_toNat, setWidth_toNat]
  rw [setWidth_toNat, setWidth_toNat]
  omega

theorem vestingSchedule_of_lt (h : timestamp.toNat < self.start.toNat) :
    self.vestingSchedule totalAllocation timestamp = .ok 0 := by
  refine if_pos ?_
  rw [BitVec.lt_def, IVestingWallet.start, setWidth_toNat, setWidth_toNat]
  exact h

theorem vestingSchedule_of_le (h : self.start.toNat + self.duration.toNat ≤ timestamp.toNat) :
    self.vestingSchedule totalAllocation timestamp = .ok totalAllocation := by
  refine (if_neg ?_).trans (if_pos ?_)
  · rw [BitVec.lt_def, IVestingWallet.start, setWidth_toNat, setWidth_toNat]
    omega
  · rw [ge_iff_le, BitVec.le_def, end_toNat, setWidth_toNat]
    exact h

/-- While it vests, the allocation is scaled by the time elapsed. -/
theorem vestingSchedule_of_between (hstart : self.start.toNat ≤ timestamp.toNat)
    (hend : timestamp.toNat < self.start.toNat + self.duration.toNat) :
    ∃ elapsed : U256, elapsed.toNat = timestamp.toNat - self.start.toNat ∧
      self.vestingSchedule totalAllocation timestamp = (do
        let scaledAllocation ← expect (checkedMul totalAllocation elapsed)
          "scaled allocation exceeds `U256::MAX`"
        .ok (scaledAllocation / IVestingWallet.duration self)) := by
  refine ⟨timestamp.setWidth 256 - IVestingWallet.start self, ?_, ?_⟩
  · rw [IVestingWallet.start, BitVec.toNat_sub_of_le, setWidth_toNat, setWidth_toNat]
    rw [BitVec.le_def, setWidth_toNat, setWidth_toNat]
    exact hstart
  · -- the vesting has begun and not ended, so it takes some time
    have hduration : IVestingWallet.duration self ≠ 0 := by
      intro hzero
      have hzero := congrArg BitVec.toNat hzero
      rw [IVestingWallet.duration, setWidth_toNat, BitVec.ofNat_eq_ofNat, BitVec.toNat_ofNat,
        Nat.zero_mod] at hzero
      omega
    refine (if_neg ?_).trans ((if_neg ?_).trans ?_)
    · rw [BitVec.lt_def, IVestingWallet.start, setWidth_toNat, setWidth_toNat]
      omega
    · rw [ge_iff_le, BitVec.le_def, end_toNat, setWidth_toNat]
      omega
    · simp only [checkedDiv, if_neg hduration, expect]

/-- **The schedule is exact**, when the scaled allocation fits a word. -/
theorem vestingSchedule_eq_ok :
    self.vestingSchedule totalAllocation timestamp = .ok v ↔
      self.Fits totalAllocation.toNat timestamp ∧
        v.toNat = self.schedule totalAllocation.toNat timestamp.toNat := by
  have htotal := totalAllocation.isLt
  by_cases hstart : timestamp.toNat < self.start.toNat
  · rw [vestingSchedule_of_lt hstart, schedule, Vesting.schedule_of_lt hstart, Except.ok.injEq,
      ← BitVec.toNat_inj, eq_comm]
    exact (and_iff_right ⟨htotal, fun hle => absurd hle (by omega)⟩).symm
  · by_cases hend : self.start.toNat + self.duration.toNat ≤ timestamp.toNat
    · rw [vestingSchedule_of_le hend, schedule, Vesting.schedule_of_le hend, Except.ok.injEq,
        ← BitVec.toNat_inj, eq_comm]
      exact (and_iff_right ⟨htotal, fun _ hlt => absurd hlt (by omega)⟩).symm
    · obtain ⟨elapsed, helapsed, heq⟩ := @vestingSchedule_of_between self totalAllocation timestamp
        (by omega) (by omega)
      have hschedule : self.schedule totalAllocation.toNat timestamp.toNat =
          totalAllocation.toNat * elapsed.toNat / self.duration.toNat := by
        rw [schedule, Vesting.schedule, if_neg hstart, if_neg hend, helapsed]
      have hfits : self.Fits totalAllocation.toNat timestamp ↔
          totalAllocation.toNat * elapsed.toNat < 2 ^ 256 := by
        rw [helapsed]
        exact ⟨fun h => h.2 (by omega) (by omega), fun h => ⟨htotal, fun _ _ => h⟩⟩
      rw [heq, hschedule, hfits]
      simp only [bind_eq_ok, expect_eq_ok, Except.ok.injEq]
      constructor
      · rintro ⟨scaled, hscaled, rfl⟩
        have hscaled := checkedMul_eq_some.mp hscaled
        have hlt := scaled.isLt
        rw [hscaled] at hlt
        refine ⟨hlt, ?_⟩
        rw [BitVec.toNat_udiv, hscaled, IVestingWallet.duration, setWidth_toNat]
      · rintro ⟨hlt, hv⟩
        have hscaled : (totalAllocation * elapsed).toNat = totalAllocation.toNat * elapsed.toNat :=
          BitVec.toNat_mul_of_lt hlt
        refine ⟨totalAllocation * elapsed, checkedMul_eq_some.mpr hscaled, ?_⟩
        rw [← BitVec.toNat_inj, BitVec.toNat_udiv, hscaled, IVestingWallet.duration,
          setWidth_toNat, hv]

theorem vestingSchedule_noErr : (self.vestingSchedule totalAllocation timestamp).NoErr := by
  rw [vestingSchedule]
  dsimp only
  split
  · exact .of_ok _
  · split
    · exact .of_ok _
    · exact .bind (.expect _ _) fun _ => .expect _ _

/-- **What has vested is exact**, when the total allocation and its scaling fit a word. -/
theorem vestedAmount_eq_ok :
    self.vestedAmount balance released timestamp = .ok v ↔
      self.Fits (released.toNat + balance.toNat) timestamp ∧
        v.toNat = self.schedule (released.toNat + balance.toNat) timestamp.toNat := by
  rw [vestedAmount, bind_eq_ok]
  simp only [expect_eq_ok, checkedAdd_eq_some, vestingSchedule_eq_ok]
  constructor
  · rintro ⟨total, htotal, h⟩
    rw [Nat.add_comm, ← htotal]
    exact h
  · intro h
    refine ⟨balance + released, ?_, ?_⟩
    · refine BitVec.toNat_add_of_lt ?_
      rw [Nat.add_comm]
      exact h.1.1
    · rw [BitVec.toNat_add_of_lt (by rw [Nat.add_comm]; exact h.1.1), Nat.add_comm]
      exact h

/-- Otherwise it panics. -/
theorem vestedAmount_panics (h : ¬self.Fits (released.toNat + balance.toNat) timestamp) :
    ∃ msg, self.vestedAmount balance released timestamp = .panic msg := by
  have hno : (self.vestedAmount balance released timestamp).NoErr :=
    .bind (.expect _ _) fun _ => vestingSchedule_noErr
  rcases hno.ok_or_panic with ⟨v, hv⟩ | hpanic
  · exact absurd (vestedAmount_eq_ok.mp hv).1 h
  · exact hpanic

end Schedule

/-! ### Releases

Both assets are computed in the same way from a balance and an amount released, so there is one
lemma for both. It needs the books only to see that the difference does not wrap: no more was
released than is vested now. -/

section Releases

variable {self : VestingWallet} {balance released amount : U256} {timestamp : U64} {received : ℕ}

/-- The books of `self`, for one asset. -/
abbrev Booked (self : VestingWallet) (timestamp : U64) (released balance received : ℕ) : Prop :=
  Vesting.Account self.start.toNat self.duration.toNat timestamp.toNat released balance received

/-- **What is releasable is what has vested less what was released**: the difference does not
wrap. -/
theorem releasable_eq_ok
    (h : self.Booked timestamp released.toNat balance.toNat received) :
    (do let vested ← self.vestedAmount balance released timestamp; pure (vested - released)) =
        (.ok amount : Result Error U256) ↔
      self.Fits received timestamp ∧
        amount.toNat + released.toNat = self.schedule received timestamp.toNat := by
  simp only [bind_eq_ok, vestedAmount_eq_ok, h.total, pure_eq_ok]
  have hle : released.toNat ≤ self.schedule received timestamp.toNat := h.released_le
  constructor
  · rintro ⟨vested, ⟨hfits, hvested⟩, rfl⟩
    refine ⟨hfits, ?_⟩
    rw [← hvested] at hle ⊢
    exact BitVec.toNat_sub_add_cancel hle
  · rintro ⟨hfits, hamount⟩
    have hlt : amount.toNat + released.toNat < 2 ^ 256 := by
      rw [hamount]
      exact Vesting.schedule_le.trans_lt hfits.1
    refine ⟨amount + released, ⟨hfits, ?_⟩, BitVec.add_sub_cancel ..⟩
    rw [BitVec.toNat_add_of_lt hlt, hamount]

/-- Nothing is computed when the scaled allocation does not fit. -/
theorem releasable_panics (h : self.Booked timestamp released.toNat balance.toNat received)
    (hfits : ¬self.Fits received timestamp) :
    ∃ msg,
      (do let vested ← self.vestedAmount balance released timestamp; pure (vested - released)) =
        (.panic msg : Result Error U256) := by
  rw [← h.total] at hfits
  obtain ⟨msg, hmsg⟩ := vestedAmount_panics hfits
  exact ⟨msg, by rw [hmsg, panic_bind]⟩

end Releases

/-! ### The books

An asset has one invariant, which says what `Vesting.Account` says, and of the token also that
nobody has an allowance of the wallet. `InOrder` needs nothing of the other contracts;
`TokenInOrder` needs a token that moves what it says, and that calls of other contracts do not reach
it in the name of the wallet. -/

section Books

variable {τ : Type} {T : Tokens τ} {this token callee : Address} {ledger allowed : τ → Address → ℕ}
  {start duration : U64} {self self' : Chain τ} {accounts : Accounts τ} {op : Op τ} {tokens : τ}
  {amount balance released : U256}

/-- **The books are in order**: those of the Ether. -/
structure InOrder (start duration : U64) (chain : Chain τ) : Prop where
  start_eq : chain.wallet.start = start
  duration_eq : chain.wallet.duration = duration
  account : chain.wallet.Booked chain.timestamp chain.wallet.released.toNat chain.balance.toNat
    chain.received

/-- **The books of the token are in order**, and nobody else takes the tokens. -/
structure TokenInOrder (this token : Address) (ledger allowed : τ → Address → ℕ)
    (chain : Chain τ) : Prop where
  account : chain.wallet.Booked chain.timestamp (chain.wallet.erc20Released token).toNat
    (ledger chain.tokens this) chain.erc20Received
  allowed_eq : ∀ spender, allowed chain.tokens spender = 0

/-- The wallet when its owner is called. -/
def Chain.paying (this : Address) (self : Chain τ) (amount released : U256) : Chain τ :=
  Chain.pay this { self with wallet := { self.wallet with released } } self.wallet.ownable.owner
    amount

/-- The wallet when a release of `callee` is recorded and paid. -/
def Chain.releasedErc20 (self : Chain τ) (callee : Address) (released : U256) (tokens : τ) :
    Chain τ :=
  { self with
    wallet := { self.wallet with
      erc20Released := Function.update self.wallet.erc20Released callee released }
    tokens }

theorem releasableEth_eq_ok (hs : InOrder start duration self) :
    releasableEth self = .ok amount ↔ self.wallet.Fits self.received self.timestamp ∧
      amount.toNat + self.wallet.released.toNat =
        self.wallet.schedule self.received self.timestamp.toNat :=
  releasable_eq_ok hs.account

/-- The owner is called last. -/
theorem releaseEth_eq_ok (h : releaseEth this accounts self = .ok self') :
    ∃ amount released data, releasableEth self = .ok amount ∧
      released.toNat = self.wallet.released.toNat + amount.toNat ∧
      accounts (self.wallet.ownable.owner, amount) (self.paying this amount released) =
        .ok (data, self') := by
  simp only [releaseEth, bind_eq_ok, addAssignChecked_eq_ok] at h
  obtain ⟨amount, hamount, released, hreleased, h⟩ := h
  refine ⟨amount, released, ?_⟩
  rw [call] at h
  by_cases hbalance : self.balance < amount
  · rw [if_pos hbalance] at h
    exact absurd h err_ne_ok
  · rw [if_neg hbalance] at h
    cases hcall : accounts (self.wallet.ownable.owner, amount)
        (self.paying this amount released) with
    | error e =>
      rw [Chain.paying] at hcall
      rw [hcall] at h
      exact absurd h err_ne_ok
    | ok answer =>
      rw [Chain.paying] at hcall
      rw [hcall] at h
      obtain rfl := Except.ok.inj h
      exact ⟨answer.1, hamount, hreleased, rfl⟩

theorem vestedAmountErc20_of_balance
    (hbalance : T.balanceOf self.tokens callee this = .ok balance) :
    vestedAmountErc20 T this self callee = fun timestamp =>
      self.wallet.vestedAmount balance (self.wallet.erc20Released callee) timestamp := by
  funext timestamp
  rw [vestedAmountErc20, hbalance]

theorem releasableErc20_of_balance
    (hbalance : T.balanceOf self.tokens callee this = .ok balance) :
    releasableErc20 T this self callee = (do
      let vested ← self.wallet.vestedAmount balance (self.wallet.erc20Released callee)
        self.timestamp
      pure (vested - self.wallet.erc20Released callee)) := by
  rw [releasableErc20, vestedAmountErc20_of_balance hbalance]

/-- Without a balance nothing is computed. -/
theorem exists_balance_of_vested {timestamp : U64} {v : U256}
    (h : vestedAmountErc20 T this self callee timestamp = .ok v) :
    ∃ balance, T.balanceOf self.tokens callee this = .ok balance := by
  rw [vestedAmountErc20] at h
  split at h
  · exact ⟨_, by assumption⟩
  · exact absurd h err_ne_ok

theorem exists_balance (h : releasableErc20 T this self callee = .ok amount) :
    ∃ balance, T.balanceOf self.tokens callee this = .ok balance := by
  obtain ⟨vested, hvested, -⟩ := bind_eq_ok.mp h
  exact exists_balance_of_vested hvested

theorem releaseErc20_eq_ok (h : releaseErc20 T this self callee = .ok self') :
    ∃ amount released tokens, releasableErc20 T this self callee = .ok amount ∧
      released.toNat = (self.wallet.erc20Released callee).toNat + amount.toNat ∧
      SafeErc20.safeTransfer T this self.tokens callee self.wallet.ownable.owner amount =
        .ok tokens ∧
      self' = self.releasedErc20 callee released tokens := by
  simp only [releaseErc20, bind_eq_ok, addAssignChecked_eq_ok, mapErr_eq_ok, pure_eq_ok] at h
  obtain ⟨amount, hamount, released, hreleased, tokens, htokens, rfl⟩ := h
  exact ⟨amount, released, tokens, hamount, hreleased, htokens, rfl⟩

theorem advance_eq_ok {timestamp : U64}
    (h : exec T this token ledger (.advance timestamp) accounts self = .ok self') :
    self.timestamp.toNat ≤ timestamp.toNat ∧ self' = { self with timestamp } := by
  rw [exec] at h
  split at h
  · exact absurd h panic_ne_ok
  · rename_i hnow
    rw [BitVec.lt_def, Nat.not_lt] at hnow
    exact ⟨hnow, (Except.ok.inj h).symm⟩

/-- What a release of a token does, as an operation of a run. -/
theorem exec_releaseErc20_eq_ok
    (h : exec T this token ledger (.releaseErc20 callee) accounts self = .ok self') :
    ∃ amount released tokens, releasableErc20 T this self callee = .ok amount ∧
      released.toNat = (self.wallet.erc20Released callee).toNat + amount.toNat ∧
      SafeErc20.safeTransfer T this self.tokens callee self.wallet.ownable.owner amount =
        .ok tokens ∧
      self' = if callee = token then
        (self.releasedErc20 callee released tokens).paidErc20 this self.wallet.ownable.owner amount
      else (self.record this ledger tokens).releasedErc20 callee released tokens := by
  obtain ⟨amount, hamount, h⟩ := bind_eq_ok.mp h
  obtain ⟨self₁, hrelease, h⟩ := bind_eq_ok.mp h
  obtain ⟨amount', released, tokens, hamount', hreleased, htransfer, rfl⟩ :=
    releaseErc20_eq_ok hrelease
  obtain rfl := Except.ok.inj (hamount.symm.trans hamount')
  refine ⟨amount, released, tokens, hamount, hreleased, htransfer, ?_⟩
  split at h
  · rename_i hcallee
    rw [if_pos hcallee]
    exact (pure_eq_ok.mp h).symm
  · rename_i hcallee
    rw [if_neg hcallee]
    exact (pure_eq_ok.mp h).symm

namespace InOrder

/-- What is released is recorded, and there. -/
theorem paying (hs : InOrder start duration self)
    (hamount : amount.toNat + self.wallet.released.toNat =
      self.wallet.schedule self.received self.timestamp.toNat)
    (hreleased : released.toNat = self.wallet.released.toNat + amount.toNat) :
    InOrder start duration (self.paying this amount released) := by
  have hle := hs.account.amount_le hamount
  have hbook := hs.account.release hamount
  rw [← hreleased] at hbook
  rw [Chain.paying, Chain.pay]
  split
  · -- what the wallet pays to itself it receives again
    have hself := hbook.receive amount.toNat
    rw [Nat.sub_add_cancel hle] at hself
    exact ⟨hs.start_eq, hs.duration_eq, hself⟩
  · rw [← BitVec.toNat_sub_of_le (BitVec.le_def.mpr hle)] at hbook
    exact ⟨hs.start_eq, hs.duration_eq, hbook⟩

/-- **Every operation keeps the books in order**, whatever the owner does when it is paid. -/
theorem exec (hs : InOrder start duration self)
    (haccounts : ∀ a u b u', accounts a u = .ok (b, u') →
      InOrder start duration u → InOrder start duration u')
    (h : exec T this token ledger op accounts self = .ok self') :
    InOrder start duration self' := by
  cases op with
  | receive value =>
    obtain ⟨balance, hbalance, h⟩ := bind_eq_ok.mp h
    obtain rfl := pure_eq_ok.mp h
    have hbook := hs.account.receive value.toNat
    rw [← checkedAdd_eq_some.mp (expect_eq_ok.mp hbalance)] at hbook
    exact ⟨hs.start_eq, hs.duration_eq, hbook⟩
  | advance timestamp =>
    obtain ⟨hnow, rfl⟩ := advance_eq_ok h
    exact ⟨hs.start_eq, hs.duration_eq, hs.account.advance hnow⟩
  | releaseEth =>
    obtain ⟨amount, released, data, hamount, hreleased, hcall⟩ := releaseEth_eq_ok h
    exact haccounts _ _ _ _ hcall (hs.paying ((releasableEth_eq_ok hs).mp hamount).2 hreleased)
  | releaseErc20 callee =>
    obtain ⟨amount, released, tokens, -, -, -, rfl⟩ := exec_releaseErc20_eq_ok h
    rw [Chain.paidErc20]
    split
    · split <;> exact ⟨hs.start_eq, hs.duration_eq, hs.account⟩
    · exact ⟨hs.start_eq, hs.duration_eq, hs.account⟩
  | transferOwnership sender newOwner =>
    obtain ⟨ownable, -, h⟩ := bind_eq_ok.mp h
    obtain rfl := pure_eq_ok.mp h
    exact ⟨hs.start_eq, hs.duration_eq, hs.account⟩
  | renounceOwnership sender =>
    obtain ⟨ownable, -, h⟩ := bind_eq_ok.mp h
    obtain rfl := pure_eq_ok.mp h
    exact ⟨hs.start_eq, hs.duration_eq, hs.account⟩
  | token sender c =>
    obtain ⟨tokens, -, h⟩ := bind_eq_ok.mp h
    obtain rfl := pure_eq_ok.mp h
    exact ⟨hs.start_eq, hs.duration_eq, hs.account⟩
  | other tokens =>
    obtain rfl := Except.ok.inj h
    exact ⟨hs.start_eq, hs.duration_eq, hs.account⟩

end InOrder

namespace TokenInOrder

/-- The other contracts change, and take nothing. -/
theorem record (hs : TokenInOrder this token ledger allowed self)
    (hle : ledger self.tokens this ≤ ledger tokens this)
    (hallowed : ∀ spender, allowed tokens spender = 0) :
    TokenInOrder this token ledger allowed (self.record this ledger tokens) where
  account := by
    have hbook := hs.account.receive (ledger tokens this - ledger self.tokens this)
    rw [Nat.add_sub_cancel' hle] at hbook
    exact hbook
  allowed_eq := hallowed

/-- **A release pays what it says.** What is releasable is there, and it goes to the owner. -/
theorem moves (hT : T.Exact token ledger) (hs : TokenInOrder this token ledger allowed self)
    (hamount : releasableErc20 T this self token = .ok amount)
    (htransfer : SafeErc20.safeTransfer T this self.tokens token self.wallet.ownable.owner amount =
      .ok tokens) :
    amount.toNat + (self.wallet.erc20Released token).toNat =
        self.wallet.schedule self.erc20Received self.timestamp.toNat ∧
      amount.toNat ≤ ledger self.tokens this ∧
      ledger tokens =
        Tally.move (ledger self.tokens) this self.wallet.ownable.owner amount.toNat := by
  obtain ⟨balance, hbalance⟩ := exists_balance hamount
  have hledger := hT.balanceOf_eq hbalance
  rw [releasableErc20_of_balance hbalance,
    releasable_eq_ok (by rw [hledger]; exact hs.account)] at hamount
  exact ⟨hamount.2, hT.safeTransfer htransfer⟩

/-- What a release of the token adds to what was released has left the wallet, or was received
again. -/
theorem releaseToken (hT : T.Exact token ledger) (hG : T.Guarded token this allowed)
    (hs : TokenInOrder this token ledger allowed self)
    (hamount : releasableErc20 T this self token = .ok amount)
    (hreleased : released.toNat = (self.wallet.erc20Released token).toNat + amount.toNat)
    (htransfer : SafeErc20.safeTransfer T this self.tokens token self.wallet.ownable.owner amount =
      .ok tokens) :
    TokenInOrder this token ledger allowed
      ((self.releasedErc20 token released tokens).paidErc20 this self.wallet.ownable.owner
        amount) := by
  obtain ⟨hschedule, hle, hmove⟩ := hs.moves hT hamount htransfer
  have hbook := hs.account.release hschedule
  have hallowed := hG.allowed_eq_zero hs.allowed_eq htransfer nofun
  have hwallet : (self.releasedErc20 token released tokens).wallet.erc20Released token = released :=
    Function.update_self ..
  rw [Chain.paidErc20]
  split
  · -- what the wallet pays to itself it receives again
    rename_i hself
    have hback := hbook.receive amount.toNat
    rw [Nat.sub_add_cancel hle] at hback
    refine ⟨?_, hallowed⟩
    dsimp only
    rw [hwallet, hreleased]
    dsimp only [Chain.releasedErc20]
    rw [hmove, hself, Tally.move_self hle]
    exact hback
  · rename_i hself
    refine ⟨?_, hallowed⟩
    rw [hwallet, hreleased]
    dsimp only [Chain.releasedErc20]
    rw [hmove, Tally.move_src (Ne.symm hself)]
    exact hbook

/-- Releasing another token does not touch this one. -/
theorem releaseOther (hA : T.Apart token this ledger allowed)
    (hs : TokenInOrder this token ledger allowed self) (hcallee : callee ≠ token)
    (htransfer : SafeErc20.safeTransfer T this self.tokens callee self.wallet.ownable.owner amount =
      .ok tokens) :
    TokenInOrder this token ledger allowed
      ((self.record this ledger tokens).releasedErc20 callee released tokens) := by
  obtain ⟨data, hcall, -⟩ := SafeErc20.callOptionalReturn_eq_ok htransfer
  obtain ⟨hledger, hallowed⟩ := hA hcallee hcall
  have hrecord := hs.record hledger fun spender =>
    Nat.le_zero.mp ((hallowed spender).trans (hs.allowed_eq spender).le)
  refine ⟨?_, hrecord.allowed_eq⟩
  dsimp only [Chain.releasedErc20]
  rw [Function.update_of_ne (Ne.symm hcallee)]
  exact hrecord.account

/-- **Every operation keeps the books of the token in order.** -/
theorem exec (hT : T.Exact token ledger) (hG : T.Guarded token this allowed)
    (hA : T.Apart token this ledger allowed) (hs : TokenInOrder this token ledger allowed self)
    (hP : Permitted this ledger allowed self op)
    (haccounts : ∀ a u b u', accounts a u = .ok (b, u') →
      TokenInOrder this token ledger allowed u → TokenInOrder this token ledger allowed u')
    (h : exec T this token ledger op accounts self = .ok self') :
    TokenInOrder this token ledger allowed self' := by
  cases op with
  | receive value =>
    obtain ⟨balance, hbalance, h⟩ := bind_eq_ok.mp h
    obtain rfl := pure_eq_ok.mp h
    exact ⟨hs.account, hs.allowed_eq⟩
  | advance timestamp =>
    obtain ⟨hnow, rfl⟩ := advance_eq_ok h
    exact ⟨hs.account.advance hnow, hs.allowed_eq⟩
  | releaseEth =>
    obtain ⟨amount, released, data, -, -, hcall⟩ := releaseEth_eq_ok h
    refine haccounts _ _ _ _ hcall ?_
    rw [Chain.paying, Chain.pay]
    split <;> exact ⟨hs.account, hs.allowed_eq⟩
  | releaseErc20 callee =>
    obtain ⟨amount, released, tokens, hamount, hreleased, htransfer, rfl⟩ :=
      exec_releaseErc20_eq_ok h
    by_cases hcallee : callee = token
    · subst hcallee
      rw [if_pos rfl]
      exact hs.releaseToken hT hG hamount hreleased htransfer
    · rw [if_neg hcallee]
      exact hs.releaseOther hA hcallee htransfer
  | transferOwnership sender newOwner =>
    obtain ⟨ownable, -, h⟩ := bind_eq_ok.mp h
    obtain rfl := pure_eq_ok.mp h
    exact ⟨hs.account, hs.allowed_eq⟩
  | renounceOwnership sender =>
    obtain ⟨ownable, -, h⟩ := bind_eq_ok.mp h
    obtain rfl := pure_eq_ok.mp h
    exact ⟨hs.account, hs.allowed_eq⟩
  | token sender c =>
    obtain ⟨tokens, hcall, h⟩ := bind_eq_ok.mp h
    obtain rfl := pure_eq_ok.mp h
    have hsender : sender ≠ this := hP
    have hcall := mapErr_eq_ok.mp hcall
    obtain ⟨data, hcall', hdata⟩ := SafeErc20.callOptionalReturn_eq_ok hcall
    exact hs.record (hG.le_of_moves hT hsender (hs.allowed_eq sender) hcall' hdata)
      (hG.allowed_eq_zero hs.allowed_eq hcall fun _ _ heq => absurd heq hsender)
  | other tokens =>
    obtain rfl := Except.ok.inj h
    obtain ⟨hledger, hallowed⟩ := hP
    exact hs.record hledger fun spender =>
      Nat.le_zero.mp ((hallowed spender).trans (hs.allowed_eq spender).le)

end TokenInOrder

/-! ### Release accounting

`Accounted` is what follows from the books about the functions that can be asked, for any asset. The
theorem adds what compares two states of one run, and what a release does. -/

/-- What the wallet promises about one asset, of which it has `balance` and ever received
`received`. -/
structure Accounted (wallet : VestingWallet) (now : U64) (released : U256) (balance received : ℕ)
    (vestedAmount : U64 → Result Error U256) (releasable : Result Error U256) : Prop where
  /-- What was released and what is there is what was received. -/
  total : released.toNat + balance = received
  /-- No more was released than has vested by now. -/
  released_le : released.toNat ≤ wallet.schedule received now.toNat
  /-- The vested amount can be computed when the scaled allocation fits, and is exact. -/
  vested_eq_ok : ∀ timestamp v, vestedAmount timestamp = .ok v ↔
    wallet.Fits received timestamp ∧ v.toNat = wallet.schedule received timestamp.toNat
  vested_panics : ∀ timestamp, ¬wallet.Fits received timestamp →
    ∃ msg, vestedAmount timestamp = .panic msg
  /-- The releasable amount is the difference to what was released, which does not wrap. -/
  releasable_eq_ok : ∀ r, releasable = .ok r ↔ wallet.Fits received now ∧
    r.toNat + released.toNat = wallet.schedule received now.toNat
  releasable_panics : ¬wallet.Fits received now → ∃ msg, releasable = .panic msg
  /-- What is releasable is there. -/
  releasable_le : ∀ r, releasable = .ok r → r.toNat ≤ balance
  /-- Nothing has vested before the start. -/
  before_start : ∀ timestamp v, timestamp < wallet.start → vestedAmount timestamp = .ok v → v = 0
  /-- In the end everything that was received and not released is releasable. -/
  after_end : ∀ r, wallet.start.toNat + wallet.duration.toNat ≤ now.toNat → releasable = .ok r →
    r.toNat = balance

/-- Books in order are all that it takes. -/
theorem Accounted.of_booked {self : VestingWallet} {now : U64} {received : ℕ}
    (h : self.Booked now released.toNat balance.toNat received) :
    Accounted self now released balance.toNat received
      (fun timestamp => self.vestedAmount balance released timestamp)
      (do let vested ← self.vestedAmount balance released now; pure (vested - released)) where
  total := h.total
  released_le := h.released_le
  vested_eq_ok timestamp v := by rw [vestedAmount_eq_ok, h.total]
  vested_panics timestamp hfits := vestedAmount_panics (by rwa [h.total])
  releasable_eq_ok r := VestingWallet.releasable_eq_ok h
  releasable_panics := VestingWallet.releasable_panics h
  releasable_le r hr := h.amount_le ((VestingWallet.releasable_eq_ok h).mp hr).2
  before_start timestamp v hlt hv := by
    have hzero := (vestedAmount_eq_ok.mp hv).2
    rw [schedule, Vesting.schedule_of_lt (BitVec.lt_def.mp hlt)] at hzero
    exact BitVec.eq_of_toNat_eq hzero
  after_end r hend hr := by
    have hall := ((VestingWallet.releasable_eq_ok h).mp hr).2
    have htotal := h.total
    rw [schedule, Vesting.schedule_of_le hend] at hall
    omega

/-- What has vested grows with the time and with what is received. -/
theorem Accounted.mono {self self' : VestingWallet} {now now' timestamp timestamp' : U64}
    {released' : U256} {held held' received received' : ℕ}
    {vested vested' : U64 → Result Error U256} {releasable releasable' : Result Error U256}
    {v v' : U256} (h : Accounted self now released held received vested releasable)
    (h' : Accounted self' now' released' held' received' vested' releasable')
    (hstart : self'.start = self.start) (hduration : self'.duration = self.duration)
    (hreceived : received ≤ received') (htimestamp : timestamp ≤ timestamp')
    (hv : vested timestamp = .ok v) (hv' : vested' timestamp' = .ok v') : v ≤ v' := by
  rw [BitVec.le_def, ((h.vested_eq_ok _ _).mp hv).2, ((h'.vested_eq_ok _ _).mp hv').2, schedule,
    schedule, hstart, hduration]
  exact Vesting.schedule_mono hreceived (BitVec.le_def.mp htimestamp)

/-- A wallet that is deployed has released nothing, and its receipts are what there was before. -/
theorem deploy_eq_ok {beneficiary : Address} {t : τ} {now : U64} {first : Chain τ}
    (h : deploy this ledger beneficiary start duration balance now t = .ok first) :
    ∃ ownable, first = ⟨⟨ownable, 0, fun _ => 0, start, duration⟩, balance, now, t,
      balance.toNat, ledger t this⟩ := by
  obtain ⟨wallet, hwallet, hfirst⟩ := bind_eq_ok.mp h
  obtain ⟨ownable, -, hwallet⟩ := bind_eq_ok.mp hwallet
  obtain rfl := pure_eq_ok.mp hwallet
  exact ⟨ownable, (pure_eq_ok.mp hfirst).symm⟩

/-- **The books are in order in every state of a run**, whatever the owner does when it is paid. -/
theorem inOrder_of_run {beneficiary : Address} {t : τ} {now : U64} {first : Chain τ}
    (hdeploy : deploy this ledger beneficiary start duration balance now t = .ok first)
    (h : Run T this token ledger allowed first self) : InOrder start duration self := by
  refine h.invariant (fun op accounts u v hu _ haccounts hexec => hu.exec haccounts hexec) ?_
  obtain ⟨ownable, rfl⟩ := deploy_eq_ok hdeploy
  exact ⟨rfl, rfl, ⟨Nat.zero_add _, Nat.zero_le _⟩⟩

theorem tokenInOrder_of_run (hT : T.Exact token ledger) (hG : T.Guarded token this allowed)
    (hA : T.Apart token this ledger allowed) {beneficiary : Address} {t : τ} {now : U64}
    {first : Chain τ} (ht : ∀ spender, allowed t spender = 0)
    (hdeploy : deploy this ledger beneficiary start duration balance now t = .ok first)
    (h : Run T this token ledger allowed first self) :
    TokenInOrder this token ledger allowed self := by
  refine h.invariant (fun op accounts u v hu hP haccounts hexec =>
    hu.exec hT hG hA hP haccounts hexec) ?_
  obtain ⟨ownable, rfl⟩ := deploy_eq_ok hdeploy
  exact ⟨⟨Nat.zero_add _, Nat.zero_le _⟩, ht⟩

theorem InOrder.accounted (hs : InOrder start duration self) :
    Accounted self.wallet self.timestamp self.wallet.released self.balance.toNat self.received
      (vestedAmountEth self) (releasableEth self) :=
  .of_booked hs.account

theorem TokenInOrder.accounted (hT : T.Exact token ledger)
    (hs : TokenInOrder this token ledger allowed self)
    (hbalance : T.balanceOf self.tokens token this = .ok balance) :
    Accounted self.wallet self.timestamp (self.wallet.erc20Released token) balance.toNat
      self.erc20Received (vestedAmountErc20 T this self token)
      (releasableErc20 T this self token) := by
  have hbook := hs.account
  rw [← hT.balanceOf_eq hbalance] at hbook
  rw [releasableErc20_of_balance hbalance, vestedAmountErc20_of_balance hbalance]
  exact .of_booked hbook

/-- **Releases add up.** In every state that deposits, releases and the passing of time lead to,
whatever the owner does when it is paid in Ether, and for Ether as for a token that moves what it
says: what was released is not more than what has vested and together with the balance is what was
ever received; what is releasable is there; what has vested grows with the time and the receipts.
A release brings what was released to the schedule, which depends on the receipts and the time
only, and not on when there were other releases; and a release of the token moves to the owner
exactly the amount that it records. -/
theorem release_accounting {beneficiary : Address} {t : τ} {now : U64} {first : Chain τ}
    (hdeploy : deploy this ledger beneficiary start duration balance now t = .ok first)
    (h : Run T this token ledger allowed first self) :
    (Accounted self.wallet self.timestamp self.wallet.released self.balance.toNat self.received
        (vestedAmountEth self) (releasableEth self) ∧
      (∀ self' timestamp timestamp' v v', Run T this token ledger allowed first self' →
        timestamp ≤ timestamp' → self.received ≤ self'.received →
          vestedAmountEth self timestamp = .ok v → vestedAmountEth self' timestamp' = .ok v' →
            v ≤ v') ∧
      (∀ accounts, ¬self.wallet.Fits self.received self.timestamp →
        ∃ msg, releaseEth this accounts self = .panic msg) ∧
      ∀ accounts self', releaseEth this accounts self = .ok self' →
        ∃ paid amount data, accounts (self.wallet.ownable.owner, amount) paid = .ok (data, self') ∧
          paid.wallet.released.toNat =
            self.wallet.schedule self.received self.timestamp.toNat) ∧
    (T.Exact token ledger → T.Guarded token this allowed → T.Apart token this ledger allowed →
      (∀ spender, allowed t spender = 0) →
      ((self.wallet.erc20Released token).toNat + ledger self.tokens this = self.erc20Received ∧
        (self.wallet.erc20Released token).toNat ≤
          self.wallet.schedule self.erc20Received self.timestamp.toNat ∧
        ∀ b, T.balanceOf self.tokens token this = .ok b →
          Accounted self.wallet self.timestamp (self.wallet.erc20Released token) b.toNat
            self.erc20Received (vestedAmountErc20 T this self token)
            (releasableErc20 T this self token)) ∧
      (∀ self' timestamp timestamp' v v', Run T this token ledger allowed first self' →
        timestamp ≤ timestamp' → self.erc20Received ≤ self'.erc20Received →
          vestedAmountErc20 T this self token timestamp = .ok v →
            vestedAmountErc20 T this self' token timestamp' = .ok v' → v ≤ v') ∧
      ∀ self', releaseErc20 T this self token = .ok self' →
        (self'.wallet.erc20Released token).toNat =
            self.wallet.schedule self.erc20Received self.timestamp.toNat ∧
          ∃ amount : U256,
            (self'.wallet.erc20Released token).toNat =
              (self.wallet.erc20Released token).toNat + amount.toNat ∧
            amount.toNat ≤ ledger self.tokens this ∧
            ledger self'.tokens =
              Tally.move (ledger self.tokens) this self.wallet.ownable.owner amount.toNat) := by
  have hs := inOrder_of_run hdeploy h
  have hsame {self' : Chain τ} (h' : Run T this token ledger allowed first self') :
      self'.wallet.start = self.wallet.start ∧ self'.wallet.duration = self.wallet.duration :=
    have hs' := inOrder_of_run hdeploy h'
    ⟨hs'.start_eq.trans hs.start_eq.symm, hs'.duration_eq.trans hs.duration_eq.symm⟩
  refine ⟨⟨hs.accounted, ?_, ?_, ?_⟩, fun hT hG hA ht => ?_⟩
  · intro self' timestamp timestamp' v v' h' hle hreceived hv hv'
    obtain ⟨hstart, hduration⟩ := hsame h'
    exact hs.accounted.mono (inOrder_of_run hdeploy h').accounted hstart hduration hreceived hle
      hv hv'
  · intro accounts hfits
    obtain ⟨msg, hmsg⟩ := hs.accounted.releasable_panics hfits
    exact ⟨msg, by rw [releaseEth, hmsg, panic_bind]⟩
  · intro accounts self' hrelease
    obtain ⟨amount, released, data, hamount, hreleased, hcall⟩ := releaseEth_eq_ok hrelease
    refine ⟨_, amount, data, hcall, ?_⟩
    rw [← ((releasableEth_eq_ok hs).mp hamount).2, Nat.add_comm, ← hreleased, Chain.paying,
      Chain.pay]
    split <;> rfl
  · have ht' := tokenInOrder_of_run hT hG hA ht hdeploy h
    refine ⟨⟨ht'.account.total, ht'.account.released_le, fun b => ht'.accounted hT⟩, ?_, ?_⟩
    · intro self' timestamp timestamp' v v' h' hle hreceived hv hv'
      obtain ⟨hstart, hduration⟩ := hsame h'
      obtain ⟨b, hb⟩ := exists_balance_of_vested hv
      obtain ⟨b', hb'⟩ := exists_balance_of_vested hv'
      have hbooked' := (tokenInOrder_of_run hT hG hA ht hdeploy h').accounted hT hb'
      exact (ht'.accounted hT hb).mono hbooked' hstart hduration hreceived hle hv hv'
    · intro self' hrelease
      obtain ⟨amount, released, tokens, hamount, hreleased, htransfer, rfl⟩ :=
        releaseErc20_eq_ok hrelease
      obtain ⟨hschedule, hle, hmove⟩ := ht'.moves hT hamount htransfer
      have hwallet : (self.releasedErc20 token released tokens).wallet.erc20Released token =
          released := Function.update_self ..
      rw [hwallet, hreleased]
      exact ⟨by rw [Nat.add_comm, hschedule], amount, rfl, hle, hmove⟩

/-- Account `7` owns the wallet at address `200`, which vests from 1000 to 1100. It receives Ether
and tokens of the ERC-20 of this repository at address `100`, and releases both. -/
theorem release_accounting_twice : ∃ s : Chain Erc20.Deployed,
    (s.wallet.released, s.balance, s.wallet.erc20Released 100, s.tokens.1.held 7) =
      (180, 20, 20, 20) ∧
    s.wallet.released.toNat + s.balance.toNat = s.received ∧
    20 + s.tokens.1.held 200 = s.erc20Received := by
  let T := Erc20.deployed 100
  have hone : (1 : Address) ≠ 200 := by decide
  let allowed : Erc20.Deployed → Address → ℕ := fun t spender => (t.1.allowance 200 spender).toNat
  let ledger : Erc20.Deployed → Address → ℕ := fun t => t.1.held
  let accounts : Accounts Erc20.Deployed := fun _ s => .ok ([], s)
  have hquiet : ∀ a u b u', accounts a u = .ok (b, u') → u' = u := fun _ _ _ _ h =>
    (Prod.mk.inj (Except.ok.inj h)).2.symm
  obtain ⟨s, hs, hlook⟩ :=
    (Machine.mk fun s i => exec T 200 100 ledger i accounts s).exists_reachable
    (P := Permitted 200 ledger allowed)
    ⟨⟨⟨7⟩, 0, fun _ => 0, 1000, 100⟩, 5, 900, Erc20.Deployed.fund 1 1000, 5,
      ledger (Erc20.Deployed.fund 1 1000) 200⟩
    [.receive 95, .token 1 (.transfer 200 50), .advance 1040, .releaseEth, .releaseErc20 100,
      .receive 100, .advance 1090, .releaseEth]
    (fun s => (s.wallet.released, s.balance, s.wallet.erc20Released 100, s.tokens.1.held 7))
    (180, 20, 20, 20)
    (by
      intro op hop _
      simp only [List.mem_cons, List.not_mem_nil, or_false] at hop
      rcases hop with rfl | rfl | rfl | rfl | rfl | rfl | rfl | rfl
      · exact trivial
      · exact hone
      all_goals exact trivial)
    (by decide +kernel)
  have hdeploy : deploy 200 ledger 7 1000 100 5 900 (Erc20.Deployed.fund 1 1000) = .ok _ := rfl
  obtain ⟨⟨hether, -⟩, htokens⟩ := release_accounting hdeploy (.of_reachable hquiet hs)
  obtain ⟨⟨htoken, -⟩, -⟩ := htokens (Erc20.deployed_exact 100) (Erc20.deployed_guarded 100 200)
    (Erc20.deployed_apart 100 200 ledger allowed) fun _ => rfl
  rw [(Prod.mk.inj (Prod.mk.inj (Prod.mk.inj hlook).2).2).1] at htoken
  exact ⟨s, hlook, hether.total, htoken⟩

end Books

end VestingWallet

end ContractsStylus
