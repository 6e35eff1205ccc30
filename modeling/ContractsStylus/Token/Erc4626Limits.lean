import ContractsStylus.Token.Erc4626Rate
import ContractsStylus.Token.GuardedToken

/-!
# The limits of an ERC-4626 vault

What the vault advertises as the most that an owner can withdraw or redeem, against what it asks
for and pays out then. The two go through different formulas with different roundings; that they
agree is a fact about trades with the pool that the vault is.

The total assets are what the asset answers, whatever that is.

## Errors that cannot occur

A limit that is advertised is right if no call within it fails because there is too little. Calls
within it can fail for other reasons: an allowance, a receiver that is the zero address, an asset
that refuses. So the statement names the errors that mean a shortage and excludes these, for every
caller; and that a call succeeds is stated under the conditions that exclude the others.

The conversions are given as equivalences here. `Convertible` collects what can go wrong in them,
and is a condition on the state alone.

## Main definitions

* `Erc4626.Convertible` — the vault can convert: the sums in its rate are words
* `Erc4626.Error.IsShortage` — errors that say that there is not enough

## Main results

* `Erc4626._convertToShares_eq_ok_iff`, `Erc4626._convertToAssets_eq_ok_iff` — the conversions
* `Erc4626.exists_previewWithdraw`, `Erc4626.exists_previewRedeem` — within the limits, the owner
  has the shares and the vault has the assets
* `Erc4626.limits_agree` — withdrawing and redeeming within the limits
-/

namespace ContractsStylus

namespace Erc4626

variable {τ : Type} {T : Tokens τ} {this : Address} {self self' : Vault τ}
  {sender receiver owner : Address} {assets shares A max : U256} {rounding : Rounding}

/-! ### Conversions

The conditions are those of the text, in its order: the assets are known, the two sums fit, and so
does the result. -/

/-- The vault has assets `A`, and the sums in its rate do not overflow. -/
structure Convertible (T : Tokens τ) (this : Address) (vault : Vault τ) (A : U256) : Prop where
  totalAssets_eq : totalAssets T this vault = .ok A
  virtualShares_lt : virtualShares vault < 2 ^ 256
  virtualAssets_lt : A.toNat + 1 < 2 ^ 256

/-- The offset and the supply are added. -/
theorem exists_expect_virtualShares (h : virtualShares self < 2 ^ 256) (msg msg' : String) :
    ∃ offset multiplier,
      (expect (checkedPow TEN self.erc4626.decimalsOffset.toNat) msg : Result Error _) =
        .ok offset ∧
      (expect (checkedAdd self.erc20.totalSupply offset) msg' : Result Error _) =
        .ok multiplier ∧ multiplier.toNat = virtualShares self := by
  have hpow : TEN.toNat ^ self.erc4626.decimalsOffset.toNat < 2 ^ 256 :=
    (Nat.le_add_left ..).trans_lt h
  obtain ⟨offset, hoffset⟩ : ∃ offset : U256,
      checkedPow TEN self.erc4626.decimalsOffset.toNat = some offset := ⟨_, if_pos hpow⟩
  have hadd : self.erc20.totalSupply.toNat + offset.toNat < 2 ^ 256 := by
    rw [checkedPow_eq_some.mp hoffset]
    exact h
  obtain ⟨multiplier, hmul⟩ : ∃ multiplier : U256,
      checkedAdd self.erc20.totalSupply offset = some multiplier := ⟨_, if_pos hadd⟩
  refine ⟨offset, multiplier, expect_eq_ok.mpr hoffset, expect_eq_ok.mpr hmul, ?_⟩
  rw [checkedAdd_eq_some.mp hmul, checkedPow_eq_some.mp hoffset]
  rfl

/-- The assets and the one are added. -/
theorem exists_expect_virtualAssets (h : A.toNat + 1 < 2 ^ 256) (msg : String) :
    ∃ multiplier, (expect (checkedAdd A 1) msg : Result Error _) = .ok multiplier ∧
      multiplier.toNat = A.toNat + 1 := by
  have hadd : checkedAdd A 1 = some (A + 1) := if_pos h
  exact ⟨A + 1, expect_eq_ok.mpr hadd, checkedAdd_eq_some.mp hadd⟩

theorem _convertToShares_eq_ok_iff :
    _convertToShares T this self assets rounding = .ok shares ↔
      ∃ A, Convertible T this self A ∧
        shares.toNat = rounding.div (assets.toNat * virtualShares self) (A.toNat + 1) := by
  constructor
  · intro h
    simp only [_convertToShares, bind_eq_ok] at h
    obtain ⟨offset, hoffset, multiplier, hmul, A, hA, denominator, hden, h⟩ := h
    have hshares := expect_virtualShares hoffset hmul
    have hassets := expect_virtualAssets hden
    rw [mulDiv_eq_ok, hshares, hassets] at h
    exact ⟨A, ⟨hA, hshares ▸ multiplier.isLt, hassets ▸ denominator.isLt⟩, h.2⟩
  · rintro ⟨A, h, hshares⟩
    obtain ⟨offset, multiplier, hoffset, hmul, hvalue⟩ :=
      exists_expect_virtualShares h.virtualShares_lt
        "decimal offset overflow in `Erc4626::_convert_to_shares`"
        "multiplier overflow in `Erc4626::_convert_to_shares`"
    obtain ⟨denominator, hden, hvalue'⟩ := exists_expect_virtualAssets h.virtualAssets_lt
      "denominator overflow in `Erc4626::_convert_to_shares`"
    rw [_convertToShares, hoffset, ok_bind, hmul, ok_bind, h.totalAssets_eq, ok_bind, hden, ok_bind,
      mulDiv_eq_ok, hvalue, hvalue']
    refine ⟨fun hzero => ?_, hshares⟩
    rw [hzero] at hvalue'
    exact nomatch hvalue'

theorem _convertToAssets_eq_ok_iff :
    _convertToAssets T this self shares rounding = .ok assets ↔
      ∃ A, Convertible T this self A ∧
        assets.toNat = rounding.div (shares.toNat * (A.toNat + 1)) (virtualShares self) := by
  constructor
  · intro h
    simp only [_convertToAssets, bind_eq_ok] at h
    obtain ⟨A, hA, multiplier, hmul, offset, hoffset, denominator, hden, h⟩ := h
    have hshares := expect_virtualShares hoffset hden
    have hassets := expect_virtualAssets hmul
    rw [mulDiv_eq_ok, hshares, hassets] at h
    exact ⟨A, ⟨hA, hshares ▸ denominator.isLt, hassets ▸ multiplier.isLt⟩, h.2⟩
  · rintro ⟨A, h, hassets⟩
    obtain ⟨multiplier, hmul, hvalue⟩ := exists_expect_virtualAssets h.virtualAssets_lt
      "multiplier overflow in `Erc4626::_convert_to_assets`"
    obtain ⟨offset, denominator, hoffset, hden, hvalue'⟩ :=
      exists_expect_virtualShares h.virtualShares_lt
        "decimal offset overflow in `Erc4626::_convert_to_assets`"
        "denominator overflow in `Erc4626::_convert_to_assets`"
    rw [_convertToAssets, h.totalAssets_eq, ok_bind, hmul, ok_bind, hoffset, ok_bind, hden, ok_bind,
      mulDiv_eq_ok, hvalue, hvalue']
    refine ⟨fun hzero => ?_, hassets⟩
    rw [hzero] at hvalue'
    exact (virtualShares_pos self).ne hvalue'

/-! ### Previews within the limits

A limit is a conversion rounded down, and a preview one rounded up, of what the limit gives. That
the second does not exceed what the first started from is a fact about any pool. -/

/-- The vault as a pool, with the assets that it says it has. -/
def poolOf (self : Vault τ) (A : U256) : Pool ℕ :=
  ⟨A.toNat + 1, virtualShares self, virtualShares_pos self⟩

/-- Nobody has all of the shares that the vault counts. -/
theorem held_lt_virtualShares (hc : self.erc20.Conserved) (owner : Address) :
    self.erc20.held owner < virtualShares self :=
  (Tally.le_sum self.erc20.held owner).trans_lt
    ((hc : _ = _) ▸ Nat.lt_add_of_pos_right (Nat.pow_pos (by decide)))

/-- The limit is what the pool gives for all of the owner's shares. -/
theorem maxWithdraw_eq_ok (h : maxWithdraw T this self owner = .ok max) :
    ∃ A, Convertible T this self A ∧
      (poolOf self A).Sells (self.erc20.held owner) max.toNat := by
  obtain ⟨A, hA, hmax⟩ := _convertToAssets_eq_ok_iff.mp h
  refine ⟨A, hA, ?_⟩
  rw [hmax]
  exact Rounding.floor_mul_le ..

/-- A rounded quotient that is no larger than a word is a word. -/
theorem exists_word {n : ℕ} {w : U256} (h : n ≤ w.toNat) : ∃ x : U256, x.toNat = n ∧ x ≤ w := by
  have hn : (BitVec.ofNat 256 n).toNat = n := Nat.mod_eq_of_lt (h.trans_lt w.isLt)
  exact ⟨_, hn, BitVec.le_def.mpr (hn.trans_le h)⟩

section Limits

variable (hc : self.erc20.Conserved)
include hc

/-- **Withdrawing up to the limit** takes no more shares than the owner has, and no more assets
than the vault has. -/
theorem exists_previewWithdraw (hA : Convertible T this self A)
    (hmax : (poolOf self A).Sells (self.erc20.held owner) max.toNat) (hassets : assets ≤ max) :
    assets ≤ A ∧ ∃ shares, previewWithdraw T this self assets = .ok shares ∧
      shares ≤ self.erc20.balanceOf owner := by
  have hsell := hmax.mono (BitVec.le_def.mp hassets)
  have hceil : Rounding.Ceil.div (assets.toNat * virtualShares self) (A.toNat + 1) ≤
      (self.erc20.balanceOf owner).toNat := (Rounding.ceil_le_iff (Nat.succ_pos _)).mpr hsell
  obtain ⟨shares, hvalue, hle⟩ := exists_word hceil
  refine ⟨?_, shares, _convertToShares_eq_ok_iff.mpr ⟨A, hA, hvalue⟩, hle⟩
  exact BitVec.le_def.mpr (Nat.lt_succ_iff.mp
    (hsell.lt_assets (Nat.succ_pos _) (held_lt_virtualShares hc owner)))

/-- **Redeeming up to the limit** takes no more assets than the vault has. -/
theorem exists_previewRedeem (hA : Convertible T this self A)
    (hshares : shares ≤ maxRedeem self owner) :
    ∃ assets, previewRedeem T this self shares = .ok assets ∧ assets ≤ A := by
  have hheld := held_lt_virtualShares hc owner
  have hsell : (poolOf self A).Sells shares.toNat
      (Rounding.Floor.div (shares.toNat * (A.toNat + 1)) (virtualShares self)) :=
    Rounding.floor_mul_le ..
  obtain ⟨assets, hvalue, hle⟩ := exists_word (Nat.lt_succ_iff.mp
    (hsell.lt_assets (Nat.succ_pos _) ((BitVec.le_def.mp hshares).trans_lt hheld)))
  exact ⟨assets, _convertToAssets_eq_ok_iff.mpr ⟨A, hA, hvalue⟩, hle⟩

end Limits

/-! ### Calls within the limits

After the preview a withdrawal spends an allowance, burns and transfers. Each of these can fail, and
the first only in a way that has nothing to do with balances. -/

/-- The errors that say that there are too few shares or assets. -/
def Error.IsShortage : Error → Prop
  | .ExceededMaxWithdraw _ _ _ => True
  | .ExceededMaxRedeem _ _ _ => True
  | .InsufficientBalance _ _ _ => True
  | _ => False

/-- Spending an allowance needs no balance. -/
theorem _spendAllowance_shortage {erc20 : Erc20} {spender : Address} {e : Erc20.Error}
    (h : erc20._spendAllowance owner spender shares = Result.err e) :
    ¬(Error.ofErc20 e).IsShortage := by
  rw [Erc20._spendAllowance] at h
  split at h
  · split at h
    · cases h
      exact not_false
    · rw [bind_eq_err] at h
      rcases h with h | ⟨_, -, h⟩
      · rw [Erc20._approve] at h
        split at h
        · cases h
          exact not_false
        · split at h
          · cases h
            exact not_false
          · exact absurd h.symm err_ne_ok
      · exact absurd h.symm err_ne_ok
  · exact absurd h.symm err_ne_ok

/-- The balances after an allowance is spent, if one has to be. -/
theorem held_of_spend {erc20 : Erc20}
    (h : (if sender ≠ owner then
        (self.erc20._spendAllowance owner sender shares).mapErr Error.ofErc20
      else .ok self.erc20) = .ok erc20) : erc20.held = self.erc20.held := by
  split at h
  · rw [Erc20._spendAllowance_eq_ok (mapErr_eq_ok.mp h)]
    rfl
  · cases h
    rfl

/-- With enough shares, the common part fails for another reason. -/
theorem _withdraw_shortage {e : Error} (hshares : shares ≤ self.erc20.balanceOf owner)
    (h : _withdraw T this self sender receiver owner assets shares = Result.err e) :
    ¬e.IsShortage := by
  rw [_withdraw, bind_eq_err] at h
  rcases h with h | ⟨erc20, hspend, h⟩
  · split at h
    · obtain ⟨e, he, rfl⟩ := mapErr_eq_err.mp h
      exact _spendAllowance_shortage he
    · exact absurd h.symm err_ne_ok
  rw [bind_eq_err] at h
  rcases h with h | ⟨burned, -, h⟩
  · obtain ⟨e, he, rfl⟩ := mapErr_eq_err.mp h
    by_cases howner : owner = 0
    · rw [Erc20._burn, if_pos howner] at he
      cases he
      exact not_false
    · obtain ⟨s, hs⟩ := Erc20.exists_burn howner
        ((BitVec.le_def.mp hshares).trans_eq (congrFun (held_of_spend hspend) owner).symm)
      exact absurd (he.symm.trans hs) err_ne_ok
  rw [bind_pure_eq_err] at h
  obtain ⟨e, -, rfl⟩ := mapErr_eq_err.mp h
  cases e <;> exact not_false

/-- What the owner does or was allowed succeeds, when the asset pays. -/
theorem exists_withdraw {ledger : τ → Address → ℕ} (hpays : T.Pays self.erc4626.asset this ledger)
    (howner : owner ≠ 0) (hreceiver : receiver ≠ 0)
    (hsender : sender = owner ∨ ∃ s, self.erc20._spendAllowance owner sender shares = .ok s)
    (hshares : shares ≤ self.erc20.balanceOf owner)
    (hassets : assets.toNat ≤ ledger self.tokens this) :
    ∃ s, _withdraw T this self sender receiver owner assets shares = .ok s := by
  obtain ⟨erc20, hspend⟩ : ∃ erc20, (if sender ≠ owner then
        (self.erc20._spendAllowance owner sender shares).mapErr Error.ofErc20
      else .ok self.erc20) = .ok erc20 := by
    by_cases hself : sender = owner
    · exact ⟨_, if_neg (not_not.mpr hself)⟩
    · obtain ⟨s, hs⟩ := hsender.resolve_left hself
      exact ⟨s, (if_pos hself).trans (mapErr_eq_ok.mpr hs)⟩
  obtain ⟨burned, hburn⟩ := Erc20.exists_burn howner
    ((BitVec.le_def.mp hshares).trans_eq (congrFun (held_of_spend hspend) owner).symm)
  obtain ⟨tokens, htransfer⟩ := hpays self.tokens receiver assets hreceiver hassets
  rw [_withdraw, hspend, ok_bind, mapErr_eq_ok.mpr hburn, ok_bind, mapErr_eq_ok.mpr htransfer]
  exact ⟨_, rfl⟩

/-- **The limits agree with the previews.** A vault whose shares add up to their supply and that
can convert converts within the limits of an owner, to no more shares than the owner has and to no
more assets than the vault has. So within the limits withdrawals and redemptions do not fail for
lack of shares or assets; and if the asset pays what the vault has, they succeed for the owner and
for those whom the owner allowed to. -/
theorem limits_agree (hc : self.erc20.Conserved) (h : maxWithdraw T this self owner = .ok max) :
    ∃ A, totalAssets T this self = .ok A ∧
      (∀ assets ≤ max, assets ≤ A ∧ ∃ shares, previewWithdraw T this self assets = .ok shares ∧
        shares ≤ self.erc20.balanceOf owner) ∧
      (∀ shares ≤ maxRedeem self owner, ∃ assets, previewRedeem T this self shares = .ok assets ∧
        assets ≤ A) ∧
      (∀ assets ≤ max, ∀ sender receiver e,
        withdraw T this self sender assets receiver owner = Result.err e → ¬e.IsShortage) ∧
      (∀ shares ≤ maxRedeem self owner, ∀ sender receiver e,
        redeem T this self sender shares receiver owner = Result.err e → ¬e.IsShortage) ∧
      ∀ ledger : τ → Address → ℕ, T.Exact self.erc4626.asset ledger →
        T.Pays self.erc4626.asset this ledger →
        ∀ sender receiver, owner ≠ 0 → receiver ≠ 0 →
          (∀ assets ≤ max, ∀ shares, previewWithdraw T this self assets = .ok shares →
            (sender = owner ∨ ∃ s, self.erc20._spendAllowance owner sender shares = .ok s) →
            ∃ s, withdraw T this self sender assets receiver owner = .ok (shares, s)) ∧
          ∀ shares ≤ maxRedeem self owner,
            (sender = owner ∨ ∃ s, self.erc20._spendAllowance owner sender shares = .ok s) →
            ∃ assets s, redeem T this self sender shares receiver owner = .ok (assets, s) := by
  obtain ⟨A, hA, hmax⟩ := maxWithdraw_eq_ok h
  have hwithdraw {assets : U256} (hle : assets ≤ max) (sender receiver : Address) :
      ∃ shares, previewWithdraw T this self assets = .ok shares ∧
        shares ≤ self.erc20.balanceOf owner ∧
        withdraw T this self sender assets receiver owner = (do
          let s ← _withdraw T this self sender receiver owner assets shares
          pure (shares, s)) := by
    obtain ⟨-, shares, hpreview, hshares⟩ := exists_previewWithdraw hc hA hmax hle
    refine ⟨shares, hpreview, hshares, ?_⟩
    rw [withdraw, h, ok_bind, if_neg (not_lt.mpr hle), hpreview, ok_bind]
  have hredeem {shares : U256} (hle : shares ≤ maxRedeem self owner) (sender receiver : Address) :
      ∃ assets, assets ≤ A ∧ redeem T this self sender shares receiver owner = (do
        let s ← _withdraw T this self sender receiver owner assets shares
        pure (assets, s)) := by
    obtain ⟨assets, hpreview, hassets⟩ := exists_previewRedeem hc hA hle
    refine ⟨assets, hassets, ?_⟩
    rw [redeem, if_neg (not_lt.mpr hle), hpreview, ok_bind]
  refine ⟨A, hA.totalAssets_eq, fun assets => exists_previewWithdraw hc hA hmax,
    fun shares => exists_previewRedeem hc hA, fun assets hle sender receiver e herr => ?_,
    fun shares hle sender receiver e herr => ?_,
    fun ledger hexact hpays sender receiver howner hreceiver =>
      ⟨fun assets hle shares hpreview hsender => ?_, fun shares hle hsender => ?_⟩⟩
  · obtain ⟨shares, -, hshares, hcall⟩ := hwithdraw hle sender receiver
    rw [hcall, bind_pure_eq_err] at herr
    exact _withdraw_shortage hshares herr
  · obtain ⟨assets, -, hcall⟩ := hredeem hle sender receiver
    rw [hcall, bind_pure_eq_err] at herr
    exact _withdraw_shortage hle herr
  · obtain ⟨shares', hpreview', hshares, hcall⟩ := hwithdraw hle sender receiver
    obtain rfl := Except.ok.inj (hpreview'.symm.trans hpreview)
    obtain ⟨hassets, -⟩ := exists_previewWithdraw hc hA hmax hle
    obtain ⟨s, hs⟩ := exists_withdraw hpays howner hreceiver hsender hshares
      ((BitVec.le_def.mp hassets).trans_eq (totalAssets_eq_ok hexact hA.totalAssets_eq))
    rw [hcall, hs]
    exact ⟨s, rfl⟩
  · obtain ⟨assets, hassets, hcall⟩ := hredeem hle sender receiver
    obtain ⟨s, hs⟩ := exists_withdraw hpays howner hreceiver hsender hle
      ((BitVec.le_def.mp hassets).trans_eq (totalAssets_eq_ok hexact hA.totalAssets_eq))
    rw [hcall, hs]
    exact ⟨assets, s, rfl⟩

/-- After a deposit of 5 and a donation of 7, account `1` can withdraw 10 and redeem its 5 shares:
the vault is at address `200`, and its asset is the ERC-20 of this repository at address `100`. -/
theorem limits_agree_donation : ∃ s : Vault Erc20.Deployed,
    Reachable (Erc20.deployed 100) 200 (Erc20.Deployed.fund 1 1000) 100 0 s ∧
    maxWithdraw (Erc20.deployed 100) 200 s 1 = .ok 10 ∧
    (∃ s', withdraw (Erc20.deployed 100) 200 s 1 10 1 1 = .ok (5, s')) ∧
    ∃ assets s', redeem (Erc20.deployed 100) 200 s 1 5 1 1 = .ok (assets, s') := by
  let T := Erc20.deployed 100
  have hone : (1 : Address) ≠ 200 := by decide
  obtain ⟨s, hs, hlook⟩ := (machine T 200).exists_reachable (P := fun _ tx => Permitted 200 tx)
    (deploy (Erc20.Deployed.fund 1 1000) 100 0)
    [⟨1, .asset (.approve 200 (MAX 256))⟩, ⟨1, .deposit 5 1⟩, ⟨1, .asset (.transfer 200 7)⟩]
    (fun s => (s.erc4626.asset, maxRedeem s 1, (maxWithdraw T 200 s 1).toOption,
      (previewWithdraw T 200 s 10).toOption))
    (100, 5, some 10, some 5)
    (by
      intro tx htx _
      simp only [List.mem_cons, List.not_mem_nil, or_false] at htx
      rcases htx with rfl | rfl | rfl
      · exact ⟨hone, by rintro c ⟨⟩; exact hone⟩
      · exact ⟨hone, nofun⟩
      · exact ⟨hone, by rintro c ⟨⟩; exact hone⟩)
    (by decide +kernel)
  simp only [Prod.mk.injEq, Except.toOption_eq_some] at hlook
  obtain ⟨hasset, hredeem, hmax, hpreview⟩ := hlook
  obtain ⟨A, -, -, -, -, -, hcalls⟩ := limits_agree (Reachable.sound hs).conserved hmax
  rw [hasset] at hcalls
  obtain ⟨hwithdraw, hredeems⟩ := hcalls _ (Erc20.deployed_exact 100)
    (Erc20.deployed_pays 100 (by decide)) 1 1 (by decide) (by decide)
  exact ⟨s, hs, hmax, hwithdraw 10 le_rfl 5 hpreview (Or.inl rfl),
    hredeems 5 hredeem.ge (Or.inl rfl)⟩

end Erc4626

end ContractsStylus
