import ContractsStylus.Library.ExchangeRate
import ContractsStylus.Token.SafeErc20
import ContractsStylus.Utils.Math

/-!
# ERC-4626

The tokenized vault: an ERC-20 token, the shares, that is minted for assets paid in and burned for
assets paid out. The assets are tokens of another contract.

A vault contract consists of the extension and of the ERC-20 storage of its shares; both are
passed around by the source, and the storage of the other contracts is passed around with them
here. `this` is the address of the vault.

## Virtual assets and shares

The rate is that of the assets and one more to the shares and some more, so that it is defined for
an empty vault. The source forms both sums with checks, and where one of them overflows the vault
can convert nothing. `_convertToShares_eq_ok` and `_convertToAssets_eq_ok` give a conversion that
succeeds as a quotient of numbers, with its rounding; nothing above them speaks of words.

## Calls of the asset

The asset is asked for its balances and told to transfer, by `SafeErc20`. Which contract it is, is a
parameter, and so is what it answers. A run contains calls of the asset by others as well: donations
to a vault are such calls, and what they do to its rate is of interest.

## Main definitions

* `Erc4626`, `Erc4626.Error`, `Vault` — the storage, the errors, a contract with both storages
* `Erc4626._convertToShares`, `_convertToAssets` — the two conversions
* `Erc4626.deposit`, `mint`, `withdraw`, `redeem` — the entry points
* `Erc4626.Op`, `Erc4626.exec` — the calls a run is made of
* `Erc4626.Effect` — what such a call comes down to

## Main results

* `Erc4626.exec_eq_ok` — every successful call is one of four effects
-/

namespace ContractsStylus

/-- State of an ERC-4626 token. -/
structure Erc4626 where
  /-- Token address of the vault. -/
  asset : Address
  decimalsOffset : U8
  deriving DecidableEq, Repr

/-- A vault contract with its shares, among contracts with storage `τ`. -/
structure Vault (τ : Type) where
  erc4626 : Erc4626
  erc20 : Erc20
  tokens : τ

namespace Erc4626

inductive Error
  | ExceededMaxDeposit (receiver : Address) (assets max : U256)
  | ExceededMaxMint (receiver : Address) (shares max : U256)
  | ExceededMaxWithdraw (owner : Address) (assets max : U256)
  | ExceededMaxRedeem (owner : Address) (shares max : U256)
  | InvalidAsset (asset : Address)
  | SafeErc20FailedOperation (token : Address)
  | SafeErc20FailedDecreaseAllowance (spender : Address)
      (currentAllowance requestedDecrease : U256)
  | InsufficientBalance (sender : Address) (balance needed : U256)
  | InvalidSender (sender : Address)
  | InvalidReceiver (receiver : Address)
  | InsufficientAllowance (spender : Address) (allowance needed : U256)
  | InvalidSpender (spender : Address)
  | InvalidApprover (approver : Address)
  deriving DecidableEq, Repr

/-- `From<safe_erc20::Error>`. -/
def Error.ofSafeErc20 : SafeErc20.Error → Error
  | .SafeErc20FailedOperation token => .SafeErc20FailedOperation token
  | .SafeErc20FailedDecreaseAllowance spender currentAllowance requestedDecrease =>
    .SafeErc20FailedDecreaseAllowance spender currentAllowance requestedDecrease

/-- `From<erc20::Error>`. -/
def Error.ofErc20 : Erc20.Error → Error
  | .InsufficientBalance sender balance needed => .InsufficientBalance sender balance needed
  | .InvalidSender sender => .InvalidSender sender
  | .InvalidReceiver receiver => .InvalidReceiver receiver
  | .InsufficientAllowance spender allowance needed =>
    .InsufficientAllowance spender allowance needed
  | .InvalidSpender spender => .InvalidSpender spender
  | .InvalidApprover approver => .InvalidApprover approver

def TEN : U256 := 10

variable {τ : Type} (T : Tokens τ) (this : Address)

/-! ### Deployment -/

def constructor (asset : Address) (decimalsOffset : U8) : Erc4626 := ⟨asset, decimalsOffset⟩

/-- A vault contract after deployment, when the other contracts are in the state `t`. -/
def deploy (t : τ) (asset : Address) (decimalsOffset : U8) : Vault τ :=
  ⟨constructor asset decimalsOffset, Erc20.empty, t⟩

/-! ### Conversions

The limits and the previews are conversions of something, with a rounding against whoever asks. A
limit on deposits or mints is none. -/

def totalAssets (self : Vault τ) : Result Error U256 :=
  let asset := self.erc4626.asset
  match T.balanceOf self.tokens asset this with
  | .ok balance => .ok balance
  | .error _ => .err (.InvalidAsset asset)

def _convertToShares (self : Vault τ) (assets : U256) (rounding : Rounding) :
    Result Error U256 := do
  let totalSupply := self.erc20.totalSupply
  let offset ← expect (checkedPow TEN self.erc4626.decimalsOffset.toNat)
    "decimal offset overflow in `Erc4626::_convert_to_shares`"
  let multiplier ← expect (checkedAdd totalSupply offset)
    "multiplier overflow in `Erc4626::_convert_to_shares`"
  let totalAssets ← totalAssets T this self
  let denominator ← expect (checkedAdd totalAssets 1)
    "denominator overflow in `Erc4626::_convert_to_shares`"
  mulDiv assets multiplier denominator rounding

def _convertToAssets (self : Vault τ) (shares : U256) (rounding : Rounding) :
    Result Error U256 := do
  let totalAssets ← totalAssets T this self
  let multiplier ← expect (checkedAdd totalAssets 1)
    "multiplier overflow in `Erc4626::_convert_to_assets`"
  let totalSupply := self.erc20.totalSupply
  let offset ← expect (checkedPow TEN self.erc4626.decimalsOffset.toNat)
    "decimal offset overflow in `Erc4626::_convert_to_assets`"
  let denominator ← expect (checkedAdd totalSupply offset)
    "denominator overflow in `Erc4626::_convert_to_assets`"
  mulDiv shares multiplier denominator rounding

def maxDeposit (_self : Vault τ) (_receiver : Address) : U256 := MAX 256

def maxMint (_self : Vault τ) (_receiver : Address) : U256 := MAX 256

def maxWithdraw (self : Vault τ) (owner : Address) : Result Error U256 :=
  _convertToAssets T this self (self.erc20.balanceOf owner) .Floor

def maxRedeem (self : Vault τ) (owner : Address) : U256 := self.erc20.balanceOf owner

def previewDeposit (self : Vault τ) (assets : U256) : Result Error U256 :=
  _convertToShares T this self assets .Floor

def previewMint (self : Vault τ) (shares : U256) : Result Error U256 :=
  _convertToAssets T this self shares .Ceil

def previewWithdraw (self : Vault τ) (assets : U256) : Result Error U256 :=
  _convertToShares T this self assets .Ceil

def previewRedeem (self : Vault τ) (shares : U256) : Result Error U256 :=
  _convertToAssets T this self shares .Floor

/-! ### Entry points

Each asks for its limit, computes the other amount with its preview, and hands both to one of two
common workflows. So the four differ in the limit, the preview and the answer only. -/

/-- Deposit/mint common workflow. The assets are transferred before the shares are minted. -/
def _deposit (self : Vault τ) (caller receiver : Address) (assets shares : U256) :
    Result Error (Vault τ) := do
  let tokens ← (SafeErc20.safeTransferFrom T this self.tokens self.erc4626.asset caller this
    assets).mapErr Error.ofSafeErc20
  let erc20 ← (self.erc20._mint receiver shares).mapErr Error.ofErc20
  pure { self with erc20, tokens }

/-- Withdraw/redeem common workflow. The shares are burned before the assets are transferred. -/
def _withdraw (self : Vault τ) (caller receiver owner : Address) (assets shares : U256) :
    Result Error (Vault τ) := do
  let erc20 ← (if caller ≠ owner then
      (self.erc20._spendAllowance owner caller shares).mapErr Error.ofErc20
    else .ok self.erc20)
  let erc20 ← (erc20._burn owner shares).mapErr Error.ofErc20
  let tokens ← (SafeErc20.safeTransfer T this self.tokens self.erc4626.asset receiver
    assets).mapErr Error.ofSafeErc20
  pure { self with erc20, tokens }

/-- With the shares that were minted. -/
def deposit (self : Vault τ) (sender : Address) (assets : U256) (receiver : Address) :
    Result Error (U256 × Vault τ) :=
  let maxAssets := maxDeposit self receiver
  if assets > maxAssets then .err (.ExceededMaxDeposit receiver assets maxAssets)
  else do
    let shares ← previewDeposit T this self assets
    let self ← _deposit T this self sender receiver assets shares
    pure (shares, self)

/-- With the assets that were paid. -/
def mint (self : Vault τ) (sender : Address) (shares : U256) (receiver : Address) :
    Result Error (U256 × Vault τ) :=
  let maxShares := maxMint self receiver
  if shares > maxShares then .err (.ExceededMaxMint receiver shares maxShares)
  else do
    let assets ← previewMint T this self shares
    let self ← _deposit T this self sender receiver assets shares
    pure (assets, self)

/-- With the shares that were burned. -/
def withdraw (self : Vault τ) (sender : Address) (assets : U256) (receiver owner : Address) :
    Result Error (U256 × Vault τ) := do
  let maxAssets ← maxWithdraw T this self owner
  if assets > maxAssets then .err (.ExceededMaxWithdraw owner assets maxAssets)
  else
    let shares ← previewWithdraw T this self assets
    let self ← _withdraw T this self sender receiver owner assets shares
    pure (shares, self)

/-- With the assets that were paid out. -/
def redeem (self : Vault τ) (sender : Address) (shares : U256) (receiver owner : Address) :
    Result Error (U256 × Vault τ) :=
  let maxShares := maxRedeem self owner
  if shares > maxShares then .err (.ExceededMaxRedeem owner shares maxShares)
  else do
    let assets ← previewRedeem T this self shares
    let self ← _withdraw T this self sender receiver owner assets shares
    pure (assets, self)

/-! ### Runs -/

/-- The calls of a vault contract, and of its asset. -/
inductive Op
  | deposit (assets : U256) (receiver : Address)
  | mint (shares : U256) (receiver : Address)
  | withdraw (assets : U256) (receiver owner : Address)
  | redeem (shares : U256) (receiver owner : Address)
  /-- A call of the ERC-20 functions of the vault. -/
  | share (c : Erc20.Call)
  /-- A call of the asset, which is another contract. -/
  | asset (c : Erc20.Call)
  deriving DecidableEq

/-- A call with its sender. -/
structure Tx where
  sender : Address
  op : Op
  deriving DecidableEq

/-- The state after a call. A call of the asset counts when the asset answers with a success. -/
def exec (self : Vault τ) (tx : Tx) : Result Error (Vault τ) :=
  match tx.op with
  | .deposit assets receiver => Prod.snd <$> deposit T this self tx.sender assets receiver
  | .mint shares receiver => Prod.snd <$> mint T this self tx.sender shares receiver
  | .withdraw assets receiver owner =>
    Prod.snd <$> withdraw T this self tx.sender assets receiver owner
  | .redeem shares receiver owner =>
    Prod.snd <$> redeem T this self tx.sender shares receiver owner
  | .share c => do
    let (_, erc20) ← (self.erc20.exec tx.sender c).mapErr Error.ofErc20
    pure { self with erc20 }
  | .asset c => do
    let tokens ← (SafeErc20.callOptionalReturn T tx.sender self.tokens self.erc4626.asset
      c).mapErr Error.ofSafeErc20
    pure { self with tokens }

def machine : Machine (Vault τ) Tx (Revert Error) := ⟨exec T this⟩

/-! ### What the functions come down to

`Effect` names for each entry point the common workflow and the preview that the other amount comes
from. Later proofs start from these two, and not from the four entry points. -/

section Inversion

variable {T this} {self self' : Vault τ} {sender caller receiver owner : Address}
  {assets shares : U256} {rounding : Rounding}

/-- The shares, with the ones that the offset adds to them. -/
def virtualShares (self : Vault τ) : ℕ :=
  self.erc20.totalSupply.toNat + 10 ^ self.erc4626.decimalsOffset.toNat

theorem virtualShares_pos (self : Vault τ) : 0 < virtualShares self :=
  Nat.add_pos_right _ (Nat.pow_pos (by decide))

/-- The offset and the supply are added without overflow. -/
theorem expect_virtualShares {msg msg' : String} {offset multiplier : U256}
    (hoffset : (expect (checkedPow TEN self.erc4626.decimalsOffset.toNat) msg : Result Error _) =
      .ok offset)
    (h : (expect (checkedAdd self.erc20.totalSupply offset) msg' : Result Error _) =
      .ok multiplier) :
    multiplier.toNat = virtualShares self := by
  rw [expect_eq_ok, checkedPow_eq_some] at hoffset
  rw [expect_eq_ok, checkedAdd_eq_some, hoffset] at h
  exact h

/-- So are the assets and the one that is added to them. -/
theorem expect_virtualAssets {msg : String} {A multiplier : U256}
    (h : (expect (checkedAdd A 1) msg : Result Error _) = .ok multiplier) :
    multiplier.toNat = A.toNat + 1 := by
  rw [expect_eq_ok, checkedAdd_eq_some] at h
  exact h

theorem _convertToShares_eq_ok (h : _convertToShares T this self assets rounding = .ok shares) :
    ∃ A, totalAssets T this self = .ok A ∧
      shares.toNat = rounding.div (assets.toNat * virtualShares self) (A.toNat + 1) := by
  simp only [_convertToShares, bind_eq_ok] at h
  obtain ⟨offset, hoffset, multiplier, hmul, A, hA, denominator, hden, h⟩ := h
  rw [mulDiv_eq_ok, expect_virtualShares hoffset hmul, expect_virtualAssets hden] at h
  exact ⟨A, hA, h.2⟩

theorem _convertToAssets_eq_ok (h : _convertToAssets T this self shares rounding = .ok assets) :
    ∃ A, totalAssets T this self = .ok A ∧
      assets.toNat = rounding.div (shares.toNat * (A.toNat + 1)) (virtualShares self) := by
  simp only [_convertToAssets, bind_eq_ok] at h
  obtain ⟨A, hA, multiplier, hmul, offset, hoffset, denominator, hden, h⟩ := h
  rw [mulDiv_eq_ok, expect_virtualShares hoffset hden, expect_virtualAssets hmul] at h
  exact ⟨A, hA, h.2⟩

/-- What a deposit does to the two tokens. -/
theorem _deposit_eq_ok (h : _deposit T this self caller receiver assets shares = .ok self') :
    self'.erc4626 = self.erc4626 ∧
      SafeErc20.safeTransferFrom T this self.tokens self.erc4626.asset caller this assets =
        .ok self'.tokens ∧
      self.erc20._mint receiver shares = .ok self'.erc20 := by
  simp only [_deposit, bind_eq_ok, mapErr_eq_ok] at h
  obtain ⟨tokens, htokens, erc20, herc20, h⟩ := h
  cases pure_eq_ok.mp h
  exact ⟨rfl, htokens, herc20⟩

/-- What a withdrawal does to them, once an allowance is spent. -/
theorem _withdraw_eq_ok
    (h : _withdraw T this self caller receiver owner assets shares = .ok self') :
    self'.erc4626 = self.erc4626 ∧
      SafeErc20.safeTransfer T this self.tokens self.erc4626.asset receiver assets =
        .ok self'.tokens ∧
      ∃ erc20 : Erc20, erc20 = { self.erc20 with allowances := erc20.allowances } ∧
        erc20._burn owner shares = .ok self'.erc20 := by
  simp only [_withdraw, bind_eq_ok, mapErr_eq_ok] at h
  obtain ⟨erc20, hspend, burned, hburn, tokens, htokens, h⟩ := h
  cases pure_eq_ok.mp h
  refine ⟨rfl, htokens, erc20, ?_, hburn⟩
  split at hspend
  · exact Erc20._spendAllowance_eq_ok (mapErr_eq_ok.mp hspend)
  · cases hspend
    rfl

theorem deposit_eq_ok (h : deposit T this self sender assets receiver = .ok (shares, self')) :
    previewDeposit T this self assets = .ok shares ∧
      _deposit T this self sender receiver assets shares = .ok self' := by
  simp only [deposit, guard_eq_ok, bind_eq_ok] at h
  obtain ⟨-, _, hpreview, _, hdeposit, h⟩ := h
  cases pure_eq_ok.mp h
  exact ⟨hpreview, hdeposit⟩

theorem mint_eq_ok (h : mint T this self sender shares receiver = .ok (assets, self')) :
    previewMint T this self shares = .ok assets ∧
      _deposit T this self sender receiver assets shares = .ok self' := by
  simp only [mint, guard_eq_ok, bind_eq_ok] at h
  obtain ⟨-, _, hpreview, _, hdeposit, h⟩ := h
  cases pure_eq_ok.mp h
  exact ⟨hpreview, hdeposit⟩

theorem withdraw_eq_ok
    (h : withdraw T this self sender assets receiver owner = .ok (shares, self')) :
    previewWithdraw T this self assets = .ok shares ∧
      _withdraw T this self sender receiver owner assets shares = .ok self' := by
  simp only [withdraw, guard_eq_ok, bind_eq_ok] at h
  obtain ⟨_, -, -, _, hpreview, _, hwithdraw, h⟩ := h
  cases pure_eq_ok.mp h
  exact ⟨hpreview, hwithdraw⟩

theorem redeem_eq_ok
    (h : redeem T this self sender shares receiver owner = .ok (assets, self')) :
    previewRedeem T this self shares = .ok assets ∧
      _withdraw T this self sender receiver owner assets shares = .ok self' := by
  simp only [redeem, guard_eq_ok, bind_eq_ok] at h
  obtain ⟨-, _, hpreview, _, hwithdraw, h⟩ := h
  cases pure_eq_ok.mp h
  exact ⟨hpreview, hwithdraw⟩

/-- What a call comes down to: shares are minted for assets at one of the two roundings against
the receiver, or burned for assets at one of the two against the owner, or only one of the two
tokens is called. -/
inductive Effect (T : Tokens τ) (this : Address) (self : Vault τ) (sender : Address) :
    Op → Vault τ → Prop
  | deposited {op : Op} {self' : Vault τ} {receiver : Address} {assets shares : U256}
      (hrate : previewDeposit T this self assets = .ok shares ∨
        previewMint T this self shares = .ok assets)
      (h : _deposit T this self sender receiver assets shares = .ok self') :
      Effect T this self sender op self'
  | withdrawn {op : Op} {self' : Vault τ} {receiver owner : Address} {assets shares : U256}
      (hrate : previewWithdraw T this self assets = .ok shares ∨
        previewRedeem T this self shares = .ok assets)
      (h : _withdraw T this self sender receiver owner assets shares = .ok self') :
      Effect T this self sender op self'
  | share {c : Erc20.Call} {ok : Bool} {erc20 : Erc20}
      (h : self.erc20.exec sender c = .ok (ok, erc20)) :
      Effect T this self sender (.share c) { self with erc20 }
  | asset {c : Erc20.Call} {data : Bytes} {tokens : τ}
      (h : T.call self.tokens sender self.erc4626.asset c = .ok (data, tokens))
      (hdata : SafeErc20.isSuccess data) :
      Effect T this self sender (.asset c) { self with tokens }

/-- **Every successful call is one of the four effects.** -/
theorem exec_eq_ok {tx : Tx} (h : exec T this self tx = .ok self') :
    Effect T this self tx.sender tx.op self' := by
  obtain ⟨sender, op⟩ := tx
  cases op with
  | deposit assets receiver =>
    obtain ⟨shares, hr⟩ := snd_map_eq_ok.mp h
    obtain ⟨hpreview, hdeposit⟩ := deposit_eq_ok hr
    exact .deposited (Or.inl hpreview) hdeposit
  | mint shares receiver =>
    obtain ⟨assets, hr⟩ := snd_map_eq_ok.mp h
    obtain ⟨hpreview, hdeposit⟩ := mint_eq_ok hr
    exact .deposited (Or.inr hpreview) hdeposit
  | withdraw assets receiver owner =>
    obtain ⟨shares, hr⟩ := snd_map_eq_ok.mp h
    obtain ⟨hpreview, hwithdraw⟩ := withdraw_eq_ok hr
    exact .withdrawn (Or.inl hpreview) hwithdraw
  | redeem shares receiver owner =>
    obtain ⟨assets, hr⟩ := snd_map_eq_ok.mp h
    obtain ⟨hpreview, hwithdraw⟩ := redeem_eq_ok hr
    exact .withdrawn (Or.inr hpreview) hwithdraw
  | share c =>
    simp only [exec, bind_eq_ok, mapErr_eq_ok] at h
    obtain ⟨⟨ok, erc20⟩, hexec, h⟩ := h
    cases pure_eq_ok.mp h
    exact .share hexec
  | asset c =>
    simp only [exec, bind_eq_ok, mapErr_eq_ok] at h
    obtain ⟨tokens, hcall, h⟩ := h
    cases pure_eq_ok.mp h
    obtain ⟨data, hcall, hdata⟩ := SafeErc20.callOptionalReturn_eq_ok hcall
    exact .asset hcall hdata

end Inversion

end Erc4626

end ContractsStylus
