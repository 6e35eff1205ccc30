import ContractsStylus.Token.GuardedToken

/-!
# Erc20Wrapper

An ERC-20 token that wraps another one: whoever pays in underlying tokens is minted as many wrapped
ones, and whoever burns wrapped tokens is paid out as many underlying ones. The wrapper has to have
what it may be asked for.

A wrapper contract consists of the extension and of the ERC-20 storage of the wrapped tokens; the
storage of the other contracts is passed around with them. `this` is the address of the wrapper.

## Another contract

The underlying token is not modelled; its state is of any type, and what it does is a parameter. Of
its functions three things are assumed. They are `Exact`: a transfer that answers with success has
moved what it says. What the wrapper has is `Guarded`: nobody takes it without an allowance. And it
`Pays` what the wrapper has, which is needed only where a withdrawal is said to succeed. All three
are true of the token of this repository, and the examples use it.

A run interleaves calls of the wrapper, of the wrapped tokens and, by others, of the underlying
token. Whatever else others do is an operation as well, which may change the state of the underlying
token in any way but for taking something from the wrapper.

## Main definitions

* `Erc20Wrapper`, `Erc20Wrapper.Error`, `Wrapper` — the storage, the errors, a contract with both
* `Erc20Wrapper.depositFor`, `withdrawTo`, `_recover` — the functions of the extension
* `Erc20Wrapper.Op`, `Erc20Wrapper.exec` — what a run is made of
* `Erc20Wrapper.Backed` — the wrapper has what it may be asked for

## Main results

* `Erc20Wrapper.Backed.exec` — every operation keeps it backed
* `Erc20Wrapper.backing` — so that nothing is stuck
-/

namespace ContractsStylus

/-- State of an `Erc20Wrapper` token. -/
structure Erc20Wrapper where
  /-- Token address of the underlying ERC-20 token. -/
  underlying : Address
  deriving DecidableEq, Repr

/-- A wrapper contract with its wrapped tokens, among contracts with storage `τ`. -/
structure Wrapper (τ : Type) where
  wrapper : Erc20Wrapper
  erc20 : Erc20
  tokens : τ

namespace Erc20Wrapper

inductive Error
  | InsufficientBalance (sender : Address) (balance needed : U256)
  | InvalidSender (sender : Address)
  | InvalidReceiver (receiver : Address)
  | InsufficientAllowance (spender : Address) (allowance needed : U256)
  | InvalidSpender (spender : Address)
  | InvalidApprover (approver : Address)
  | SafeErc20FailedOperation (token : Address)
  | SafeErc20FailedDecreaseAllowance (spender : Address)
      (currentAllowance requestedDecrease : U256)
  | InvalidUnderlying (token : Address)
  deriving DecidableEq, Repr

/-- `From<erc20::Error>`. -/
def Error.ofErc20 : Erc20.Error → Error
  | .InsufficientBalance sender balance needed => .InsufficientBalance sender balance needed
  | .InvalidSender sender => .InvalidSender sender
  | .InvalidReceiver receiver => .InvalidReceiver receiver
  | .InsufficientAllowance spender allowance needed =>
    .InsufficientAllowance spender allowance needed
  | .InvalidSpender spender => .InvalidSpender spender
  | .InvalidApprover approver => .InvalidApprover approver

/-- `From<safe_erc20::Error>`. -/
def Error.ofSafeErc20 : SafeErc20.Error → Error
  | .SafeErc20FailedOperation token => .SafeErc20FailedOperation token
  | .SafeErc20FailedDecreaseAllowance spender currentAllowance requestedDecrease =>
    .SafeErc20FailedDecreaseAllowance spender currentAllowance requestedDecrease

variable {τ : Type} (T : Tokens τ) (this : Address)

/-! ### The extension

The order of the two halves matters when one of them fails, but then the whole call does. Of other
contracts only the underlying token is called. -/

def constructor (underlyingToken : Address) : Result Error Erc20Wrapper :=
  if underlyingToken = this then .err (.InvalidUnderlying underlyingToken)
  else .ok ⟨underlyingToken⟩

/-- A wrapper contract after deployment, when the other contracts are in the state `t`. -/
def deploy (t : τ) (underlyingToken : Address) : Result Error (Wrapper τ) := do
  let wrapper ← constructor this underlyingToken
  pure ⟨wrapper, Erc20.empty, t⟩

/-- The underlying tokens are transferred before the wrapped ones are minted. -/
def depositFor (self : Wrapper τ) (sender account : Address) (value : U256) :
    Result Error (Bool × Wrapper τ) :=
  let contractAddress := this
  if sender = contractAddress then .err (.InvalidSender sender)
  else if account = contractAddress then .err (.InvalidReceiver account)
  else do
    let tokens ← (SafeErc20.safeTransferFrom T this self.tokens self.wrapper.underlying sender
      contractAddress value).mapErr Error.ofSafeErc20
    let erc20 ← (self.erc20._mint account value).mapErr Error.ofErc20
    pure (true, { self with erc20, tokens })

/-- The wrapped tokens are burned before the underlying ones are transferred. -/
def withdrawTo (self : Wrapper τ) (sender account : Address) (value : U256) :
    Result Error (Bool × Wrapper τ) :=
  if account = this then .err (.InvalidReceiver account)
  else do
    let erc20 ← (self.erc20._burn sender value).mapErr Error.ofErc20
    let tokens ← (SafeErc20.safeTransfer T this self.tokens self.wrapper.underlying account
      value).mapErr Error.ofSafeErc20
    pure (true, { self with erc20, tokens })

/-- The underlying balance of the wrapper. -/
def underlyingBalance (self : Wrapper τ) : Result Error U256 :=
  match T.balanceOf self.tokens self.wrapper.underlying this with
  | .ok balance => .ok balance
  | .error _ => .err (.InvalidUnderlying this)

/-- Mint wrapped tokens for what the wrapper has beyond their supply. -/
def _recover (self : Wrapper τ) (account : Address) : Result Error (U256 × Wrapper τ) := do
  let underlyingBalance ← underlyingBalance T this self
  let value ← expect (checkedSub underlyingBalance self.erc20.totalSupply)
    "underlying balance should be greater than the `IErc20::total_supply`"
  if value > 0 then
    let erc20 ← (self.erc20._mint account value).mapErr Error.ofErc20
    pure (value, { self with erc20 })
  else pure (value, self)

/-! ### Runs -/

/-- The calls of a wrapper contract and of its underlying token, and whatever else happens to the
other contracts. -/
inductive Op (τ : Type)
  | depositFor (account : Address) (value : U256)
  | withdrawTo (account : Address) (value : U256)
  | _recover (account : Address)
  /-- A call of the ERC-20 functions of the wrapped token. -/
  | wrapped (c : Erc20.Call)
  /-- A call of the underlying token. -/
  | underlying (c : Erc20.Call)
  /-- Anything else that others do. -/
  | other (tokens : τ)

/-- An operation with its sender. -/
structure Tx (τ : Type) where
  sender : Address
  op : Op τ

/-- The state after an operation. A call of the underlying token counts when it is answered with a
success. -/
def exec (self : Wrapper τ) (tx : Tx τ) : Result Error (Wrapper τ) :=
  match tx.op with
  | .depositFor account value => Prod.snd <$> depositFor T this self tx.sender account value
  | .withdrawTo account value => Prod.snd <$> withdrawTo T this self tx.sender account value
  | ._recover account => Prod.snd <$> _recover T this self account
  | .wrapped c => do
    let answer ← (self.erc20.exec tx.sender c).mapErr Error.ofErc20
    pure { self with erc20 := answer.2 }
  | .underlying c => do
    let tokens ← (SafeErc20.callOptionalReturn T tx.sender self.tokens self.wrapper.underlying
      c).mapErr Error.ofSafeErc20
    pure { self with tokens }
  | .other tokens => .ok { self with tokens }

def machine : Machine (Wrapper τ) (Tx τ) (Revert Error) := ⟨exec T this⟩

/-- The underlying token is called by others than the wrapper, and whatever else they do, they take
nothing from it and get no allowance of it. -/
def Permitted (ledger allowed : τ → Address → ℕ) (self : Wrapper τ) (tx : Tx τ) : Prop :=
  match tx.op with
  | .underlying _ => tx.sender ≠ this
  | .other tokens => ledger self.tokens this ≤ ledger tokens this ∧
      ∀ spender, allowed tokens spender ≤ allowed self.tokens spender
  | _ => True

/-! ### Backing

`Backed` compares the supply of the wrapped tokens with what the wrapper has of the underlying ones,
as numbers. An operation moves both by the same amount, or only makes the second larger. -/

section Backing

variable {T this} {token sender account owner : Address} {ledger allowed : τ → Address → ℕ}
  {self self' : Wrapper τ} {value : U256} {ok : Bool} {tx : Tx τ}

/-- **The wrapper has what it may be asked for**, and nobody can take it away. -/
structure Backed (this token : Address) (ledger allowed : τ → Address → ℕ) (w : Wrapper τ) :
    Prop where
  underlying_eq : w.wrapper.underlying = token
  conserved : w.erc20.Conserved
  supply_le : w.erc20.totalSupply.toNat ≤ ledger w.tokens this
  allowed_eq : ∀ spender, allowed w.tokens spender = 0

theorem depositFor_eq_ok (h : depositFor T this self sender account value = .ok (ok, self')) :
    sender ≠ this ∧ self'.wrapper = self.wrapper ∧
      SafeErc20.safeTransferFrom T this self.tokens self.wrapper.underlying sender this value =
        .ok self'.tokens ∧
      self.erc20._mint account value = .ok self'.erc20 := by
  simp only [depositFor, guard_eq_ok, bind_eq_ok, mapErr_eq_ok] at h
  obtain ⟨hsender, -, tokens, htokens, erc20, herc20, h⟩ := h
  cases pure_eq_ok.mp h
  exact ⟨hsender, rfl, htokens, herc20⟩

theorem withdrawTo_eq_ok (h : withdrawTo T this self sender account value = .ok (ok, self')) :
    account ≠ this ∧ self'.wrapper = self.wrapper ∧
      SafeErc20.safeTransfer T this self.tokens self.wrapper.underlying account value =
        .ok self'.tokens ∧
      self.erc20._burn sender value = .ok self'.erc20 := by
  simp only [withdrawTo, guard_eq_ok, bind_eq_ok, mapErr_eq_ok] at h
  obtain ⟨haccount, erc20, herc20, tokens, htokens, h⟩ := h
  cases pure_eq_ok.mp h
  exact ⟨haccount, rfl, htokens, herc20⟩

/-- What `_recover` mints is the difference, if there is one. -/
theorem _recover_eq_ok (h : _recover T this self account = .ok (value, self')) :
    ∃ balance, T.balanceOf self.tokens self.wrapper.underlying this = .ok balance ∧
      value.toNat + self.erc20.totalSupply.toNat = balance.toNat ∧
      (self'.wrapper = self.wrapper ∧ self'.tokens = self.tokens) ∧
      (self.erc20._mint account value = .ok self'.erc20 ∨
        value = 0 ∧ self'.erc20 = self.erc20) := by
  obtain ⟨balance, hbalance, h⟩ := bind_eq_ok.mp h
  obtain ⟨v, hv, h⟩ := bind_eq_ok.mp h
  have hbalance : T.balanceOf self.tokens self.wrapper.underlying this = .ok balance := by
    rw [underlyingBalance] at hbalance
    split at hbalance
    · rename_i heq
      rw [heq, Except.ok.inj hbalance]
    · exact absurd hbalance err_ne_ok
  have hv := checkedSub_eq_some.mp (expect_eq_ok.mp hv)
  split at h
  · obtain ⟨erc20, hmint, h⟩ := bind_eq_ok.mp h
    obtain ⟨rfl, rfl⟩ := Prod.mk.inj (pure_eq_ok.mp h)
    exact ⟨balance, hbalance, hv, ⟨rfl, rfl⟩, Or.inl (mapErr_eq_ok.mp hmint)⟩
  · rename_i hzero
    obtain ⟨rfl, rfl⟩ := Prod.mk.inj (pure_eq_ok.mp h)
    refine ⟨balance, hbalance, hv, ⟨rfl, rfl⟩, Or.inr ⟨?_, rfl⟩⟩
    exact BitVec.eq_of_toNat_eq (Nat.eq_zero_of_not_pos fun hpos => hzero (BitVec.lt_def.mpr hpos))

/-- What comes in is minted. -/
theorem Backed.depositFor (hT : T.Exact token ledger) (hG : T.Guarded token this allowed)
    (hs : Backed this token ledger allowed self)
    (h : depositFor T this self sender account value = .ok (ok, self')) :
    Backed this token ledger allowed self' := by
  obtain ⟨hsender, hwrapper, htokens, hmint⟩ := depositFor_eq_ok h
  rw [hs.underlying_eq] at htokens
  obtain ⟨-, hledger⟩ := hT.safeTransferFrom htokens
  refine ⟨hwrapper ▸ hs.underlying_eq, hs.conserved._mint hmint, ?_,
    hG.allowed_eq_zero hs.allowed_eq htokens nofun⟩
  rw [Erc20._mint_totalSupply hmint, hledger, Tally.move_dst hsender]
  exact Nat.add_le_add_right hs.supply_le _

/-- What is burned goes out. -/
theorem Backed.withdrawTo (hT : T.Exact token ledger) (hG : T.Guarded token this allowed)
    (hs : Backed this token ledger allowed self)
    (h : withdrawTo T this self sender account value = .ok (ok, self')) :
    Backed this token ledger allowed self' := by
  obtain ⟨haccount, hwrapper, htokens, hburn⟩ := withdrawTo_eq_ok h
  rw [hs.underlying_eq] at htokens
  obtain ⟨hle, hledger⟩ := hT.safeTransfer htokens
  refine ⟨hwrapper ▸ hs.underlying_eq, hs.conserved._burn hburn, ?_,
    hG.allowed_eq_zero hs.allowed_eq htokens nofun⟩
  have hsupply := hs.conserved._burn_totalSupply hburn
  have hbacked := hs.supply_le
  rw [hledger, Tally.move_src haccount.symm]
  omega

/-- **Recovering what the wrapper has beyond the supply makes the two equal.** -/
theorem Backed.recover (hT : T.Exact token ledger) (hs : Backed this token ledger allowed self)
    (h : _recover T this self account = .ok (value, self')) :
    Backed this token ledger allowed self' ∧ self'.tokens = self.tokens ∧
      self'.erc20.totalSupply.toNat = ledger self'.tokens this := by
  obtain ⟨balance, hbalance, hsum, ⟨hwrapper, htokens⟩, hmint⟩ := _recover_eq_ok h
  rw [hs.underlying_eq] at hbalance
  have hledger := hT.balanceOf_eq hbalance
  have hsupply : self'.erc20.totalSupply.toNat = ledger self'.tokens this := by
    rw [htokens, ← hledger]
    rcases hmint with hmint | ⟨hzero, herc20⟩
    · rw [Erc20._mint_totalSupply hmint]
      omega
    · subst hzero
      rw [herc20, ← hsum]
      exact (Nat.zero_add _).symm
  refine ⟨⟨?_, ?_, hsupply.le, fun spender => ?_⟩, htokens, hsupply⟩
  · rw [hwrapper]
    exact hs.underlying_eq
  · rcases hmint with hmint | ⟨-, herc20⟩
    · exact hs.conserved._mint hmint
    · rw [herc20]
      exact hs.conserved
  · rw [htokens]
    exact hs.allowed_eq spender

/-- **Every operation keeps the wrapper backed.** -/
theorem Backed.exec (hT : T.Exact token ledger) (hG : T.Guarded token this allowed)
    (hs : Backed this token ledger allowed self) (hP : Permitted this ledger allowed self tx)
    (h : exec T this self tx = .ok self') : Backed this token ledger allowed self' := by
  rcases tx with ⟨sender, op⟩
  cases op with
  | depositFor account value =>
    obtain ⟨answer, h⟩ := snd_map_eq_ok.mp h
    exact hs.depositFor hT hG h
  | withdrawTo account value =>
    obtain ⟨answer, h⟩ := snd_map_eq_ok.mp h
    exact hs.withdrawTo hT hG h
  | _recover account =>
    obtain ⟨value, h⟩ := snd_map_eq_ok.mp h
    exact (hs.recover hT h).1
  | wrapped c =>
    obtain ⟨⟨answer, erc20⟩, hexec, h⟩ := bind_eq_ok.mp h
    obtain rfl := pure_eq_ok.mp h
    have hexec := mapErr_eq_ok.mp hexec
    refine ⟨hs.underlying_eq, (hs.conserved.exec hexec).1, ?_, hs.allowed_eq⟩
    dsimp only
    rw [Erc20.exec_totalSupply hexec]
    exact hs.supply_le
  | underlying c =>
    obtain ⟨tokens, hcall, h⟩ := bind_eq_ok.mp h
    obtain rfl := pure_eq_ok.mp h
    have hcall := mapErr_eq_ok.mp hcall
    rw [hs.underlying_eq] at hcall
    have hsender : sender ≠ this := hP
    obtain ⟨data, hcall', hdata⟩ := SafeErc20.callOptionalReturn_eq_ok hcall
    exact ⟨hs.underlying_eq, hs.conserved,
      hs.supply_le.trans (hG.le_of_moves hT hsender (hs.allowed_eq sender) hcall' hdata),
      hG.allowed_eq_zero hs.allowed_eq hcall fun _ _ heq => absurd heq hsender⟩
  | other tokens =>
    obtain rfl := Except.ok.inj h
    obtain ⟨hledger, hallowed⟩ := hP
    refine ⟨hs.underlying_eq, hs.conserved, hs.supply_le.trans hledger, fun spender => ?_⟩
    have hle := hallowed spender
    rw [hs.allowed_eq] at hle
    exact Nat.le_zero.mp hle

/-- **Recovering does not panic**: the balance is a word, and not less than the supply. -/
theorem Backed.recover_ne_panic (hT : T.Exact token ledger)
    (hs : Backed this token ledger allowed self) (account : Address) (msg : String) :
    _recover T this self account ≠ .panic msg := by
  rw [_recover, underlyingBalance, hs.underlying_eq]
  cases hbalance : T.balanceOf self.tokens token this with
  | error e => exact err_ne_panic
  | ok balance =>
    have hle := hs.supply_le
    rw [← hT.balanceOf_eq hbalance] at hle
    have hcancel := BitVec.toNat_sub_add_cancel hle
    have hsub : checkedSub balance self.erc20.totalSupply =
        some (balance - self.erc20.totalSupply) := if_pos (BitVec.le_def.mpr hle)
    rw [ok_bind, hsub, expect, ok_bind]
    split
    · by_cases haccount : account = 0
      · rw [Erc20._mint, if_pos haccount]
        exact err_ne_panic
      · obtain ⟨s, hmint⟩ := @Erc20.exists_mint self.erc20 account
          (balance - self.erc20.totalSupply) haccount (by have := balance.isLt; omega)
        rw [hmint]
        exact ok_ne_panic
    · exact ok_ne_panic

/-- **A holder can withdraw what it has.** -/
theorem Backed.exists_withdrawTo (hT : T.Exact token ledger) (hpays : T.Pays token this ledger)
    (hs : Backed this token ledger allowed self) (hsender : sender ≠ 0) (haccount : account ≠ 0)
    (hthis : account ≠ this) :
    ∃ self', Erc20Wrapper.withdrawTo T this self sender account (self.erc20.balanceOf sender) =
        .ok (true, self') ∧ self'.erc20.balanceOf sender = 0 ∧
      ledger self'.tokens account =
        ledger self.tokens account + (self.erc20.balanceOf sender).toNat := by
  obtain ⟨erc20, hburn⟩ := @Erc20.exists_burn self.erc20 sender (self.erc20.balanceOf sender)
    hsender le_rfl
  have hle : (self.erc20.balanceOf sender).toNat ≤ ledger self.tokens this := by
    refine le_trans ?_ hs.supply_le
    rw [← (hs.conserved : _ = _)]
    exact Tally.le_sum self.erc20.held sender
  obtain ⟨tokens, htokens⟩ := hpays self.tokens account (self.erc20.balanceOf sender) haccount hle
  obtain ⟨-, hledger⟩ := hT.safeTransfer htokens
  obtain ⟨-, hheld⟩ := Erc20._burn_held hburn
  refine ⟨{ self with erc20, tokens }, ?_, BitVec.eq_of_toNat_eq ?_, ?_⟩
  · rw [Erc20Wrapper.withdrawTo, if_neg hthis, hburn, hs.underlying_eq, htokens]
    rfl
  · refine (congrFun hheld sender).trans ?_
    rw [Function.update_self, Erc20.held, Erc20.balanceOf, Nat.sub_self]
    rfl
  · change ledger tokens account = _
    rw [hledger, Tally.move_dst hthis.symm]

/-! ### The wrapped tokens are backed -/

/-- **The wrapper is backed in every state that operations lead to.** -/
theorem backed_of_reachable (hT : T.Exact token ledger) (hG : T.Guarded token this allowed) {t : τ}
    {start : Wrapper τ} (hstart : deploy this t token = .ok start)
    (ht : ∀ spender, allowed t spender = 0)
    (h : (machine T this).Reachable (Permitted this ledger allowed) start self) :
    Backed this token ledger allowed self := by
  refine h.invariant ?_ fun s tx s' hs hP hexec => hs.exec hT hG hP hexec
  obtain ⟨wrapper, hwrapper, hstart⟩ := bind_eq_ok.mp hstart
  obtain rfl := pure_eq_ok.mp hstart
  rw [constructor, guard_eq_ok] at hwrapper
  obtain rfl := Except.ok.inj hwrapper.2
  exact ⟨rfl, Erc20.conserved_empty, Nat.zero_le _, ht⟩

/-- **The wrapped tokens are backed.** In every state that deposits, withdrawals, recoveries, calls
of the wrapped token and operations of others on the underlying token lead to, the underlying
balance of the wrapper is at least the supply of the wrapped token. So recovering never panics and
makes the two equal, and every holder can withdraw its whole balance to any account but the wrapper
and zero. -/
theorem backing (hT : T.Exact token ledger) (hG : T.Guarded token this allowed)
    (hpays : T.Pays token this ledger) {t : τ} {start : Wrapper τ}
    (hstart : deploy this t token = .ok start) (ht : ∀ spender, allowed t spender = 0)
    (h : (machine T this).Reachable (Permitted this ledger allowed) start self) :
    (self.erc20.totalSupply.toNat ≤ ledger self.tokens this ∧
      ∀ balance, T.balanceOf self.tokens token this = .ok balance →
        self.erc20.totalSupply ≤ balance) ∧
    (∀ account msg, _recover T this self account ≠ .panic msg) ∧
    (∀ account value self', _recover T this self account = .ok (value, self') →
      self'.tokens = self.tokens ∧
        self'.erc20.totalSupply.toNat = ledger self'.tokens this) ∧
    ∀ holder account, holder ≠ 0 → account ≠ this → account ≠ 0 →
      ∃ self', withdrawTo T this self holder account (self.erc20.balanceOf holder) =
          .ok (true, self') ∧ self'.erc20.balanceOf holder = 0 ∧
        ledger self'.tokens account =
          ledger self.tokens account + (self.erc20.balanceOf holder).toNat := by
  have hs := backed_of_reachable hT hG hstart ht h
  refine ⟨⟨hs.supply_le, fun balance hbalance => ?_⟩, hs.recover_ne_panic hT,
    fun account value self' hrecover => (hs.recover hT hrecover).2,
    fun holder account hholder hthis haccount =>
      hs.exists_withdrawTo hT hpays hholder haccount hthis⟩
  rw [BitVec.le_def, hT.balanceOf_eq hbalance]
  exact hs.supply_le

/-- Account `1` deposits 30 for account `2`, which sends 10 of them to account `3`, and donates 7:
the wrapper is at address `200`, and its underlying token is the ERC-20 of this repository at
address `100`. -/
theorem backing_donation : ∃ s s' : Wrapper Erc20.Deployed,
    (s.erc20.totalSupply, s.tokens.1.balanceOf 200) = (30, 37) ∧ 30 ≤ s.tokens.1.held 200 ∧
    withdrawTo (Erc20.deployed 100) 200 s 3 5 (s.erc20.balanceOf 3) = .ok (true, s') ∧
    s'.erc20.balanceOf 3 = 0 := by
  let T := Erc20.deployed 100
  have hone : (1 : Address) ≠ 200 := by decide
  let allowed : Erc20.Deployed → Address → ℕ := fun t spender => (t.1.allowance 200 spender).toNat
  let ledger : Erc20.Deployed → Address → ℕ := fun t => t.1.held
  obtain ⟨s, hs, hlook⟩ := (machine T 200).exists_reachable
    (P := Permitted 200 ledger allowed) ⟨⟨100⟩, Erc20.empty, Erc20.Deployed.fund 1 1000⟩
    [⟨1, .underlying (.approve 200 50)⟩, ⟨1, .depositFor 2 30⟩,
      ⟨1, .underlying (.transfer 200 7)⟩, ⟨2, .wrapped (.transfer 3 10)⟩]
    (fun s => (s.erc20.totalSupply, s.tokens.1.balanceOf 200)) (30, 37)
    (by
      intro tx htx _
      simp only [List.mem_cons, List.not_mem_nil, or_false] at htx
      rcases htx with rfl | rfl | rfl | rfl
      · exact hone
      · exact trivial
      · exact hone
      · exact trivial)
    (by decide +kernel)
  obtain ⟨⟨hbacked, -⟩, -, -, hwithdraw⟩ := backing (Erc20.deployed_exact 100)
    (Erc20.deployed_guarded 100 200) (Erc20.deployed_pays 100 (by decide)) rfl (fun _ => rfl) hs
  obtain ⟨s', hs', hzero, -⟩ := hwithdraw 3 5 (by decide) (by decide) (by decide)
  rw [(Prod.mk.inj hlook).1] at hbacked
  exact ⟨s, s', hlook, hbacked, hs', hzero⟩

end Backing

end Erc20Wrapper

end ContractsStylus
