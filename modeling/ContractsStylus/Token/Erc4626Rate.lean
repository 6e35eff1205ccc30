import ContractsStylus.Token.Erc4626

/-!
# The share price of an ERC-4626 vault

A vault counts one asset more than it has, and `10 ^ decimals_offset` shares more than it has
issued, and converts at the rate of the two. Deposits and withdrawals are thereby trades with a
pool, and each of the four entry points rounds so that the trade is not better than the rate.

The asset is another contract and all that is known about it is that it is exact. The vault is
called by other accounts only: it calls no contract but the asset, and that never calls it.

## Trades with a pool

`ExchangeRate` in the library is about a pool of assets and shares, and about trades that are
rounded against whoever trades. It orders pools by their rate without a division. The four previews
are shown to be such trades, two buying and two selling, and all that is said of a vault is said of
a pool from there on: the four entry points need not be told apart any more.

A donation adds assets and no shares, and that makes the rate higher as well.

## Main definitions

* `Erc4626.pool` — the vault as a pool
* `Erc4626.Permitted` — calls by other accounts, which do not pay with the assets of the vault

## Main results

* `Erc4626.Effect.pool_le` — no call lowers the rate
* `Erc4626.sharePrice_never_falls` — the same in terms of `total_assets` and `total_supply`, and
  that a round trip gains nothing
-/

namespace ContractsStylus

namespace Erc4626

variable {τ : Type} {T : Tokens τ} {this : Address} {ledger : τ → Address → ℕ}
  {self self' : Vault τ} {sender caller receiver owner : Address} {assets shares A : U256}

/-- The vault as a pool. -/
def pool (ledger : τ → Address → ℕ) (this : Address) (self : Vault τ) : Pool ℕ where
  assets := ledger self.tokens this + 1
  shares := virtualShares self
  shares_pos := virtualShares_pos self

/-! ### The four roundings

A deposit and a mint are both trades in which assets are paid for shares, and the vault gains in
both; a withdrawal and a redemption are the other direction. Which of the two amounts was given and
which computed does not matter after this section. -/

section Rates

variable (hT : T.Exact self.erc4626.asset ledger)
include hT

theorem totalAssets_eq_ok (h : totalAssets T this self = .ok A) :
    A.toNat = ledger self.tokens this := by
  rw [totalAssets] at h
  split at h
  · rename_i balance hbalance
    cases h
    exact hT.balanceOf_eq hbalance
  · exact absurd h err_ne_ok

/-- Deposits round the shares down, and mints round the assets up. -/
theorem buys_of_preview (h : previewDeposit T this self assets = .ok shares ∨
    previewMint T this self shares = .ok assets) :
    (pool ledger this self).Buys assets.toNat shares.toNat := by
  rcases h with h | h
  · obtain ⟨A, hA, hshares⟩ := _convertToShares_eq_ok h
    rw [Pool.Buys, hshares, totalAssets_eq_ok hT hA]
    exact Rounding.floor_mul_le ..
  · obtain ⟨A, hA, hassets⟩ := _convertToAssets_eq_ok h
    rw [Pool.Buys, hassets, totalAssets_eq_ok hT hA]
    exact Rounding.le_ceil_mul _ (virtualShares_pos self)

/-- Withdrawals round the shares up, and redemptions round the assets down. -/
theorem sells_of_preview (h : previewWithdraw T this self assets = .ok shares ∨
    previewRedeem T this self shares = .ok assets) :
    (pool ledger this self).Sells shares.toNat assets.toNat := by
  rcases h with h | h
  · obtain ⟨A, hA, hshares⟩ := _convertToShares_eq_ok h
    rw [Pool.Sells, hshares, totalAssets_eq_ok hT hA]
    exact Rounding.le_ceil_mul _ (Nat.succ_pos _)
  · obtain ⟨A, hA, hassets⟩ := _convertToAssets_eq_ok h
    rw [Pool.Sells, hassets, totalAssets_eq_ok hT hA]
    exact Rounding.floor_mul_le ..

end Rates

/-! ### One call

What a call does to the pool is what its trade does, or a donation, or nothing. -/

theorem virtualShares_of_deposit
    (h : _deposit T this self caller receiver assets shares = .ok self') :
    virtualShares self' = virtualShares self + shares.toNat := by
  obtain ⟨he, -, hmint⟩ := _deposit_eq_ok h
  rw [virtualShares, virtualShares, he, Erc20._mint_totalSupply hmint]
  omega

section Calls

variable (hT : T.Exact self.erc4626.asset ledger)
include hT

theorem pool_le_of_deposit (hcaller : caller ≠ this)
    (hrate : previewDeposit T this self assets = .ok shares ∨
      previewMint T this self shares = .ok assets)
    (h : _deposit T this self caller receiver assets shares = .ok self') :
    pool ledger this self ≤ pool ledger this self' := by
  obtain ⟨-, htransfer, -⟩ := _deposit_eq_ok h
  refine Pool.le_of_buys (buys_of_preview hT hrate) ?_ (virtualShares_of_deposit h)
  change ledger self'.tokens this + 1 = ledger self.tokens this + 1 + assets.toNat
  rw [(hT.safeTransferFrom htransfer).2, Tally.move_dst hcaller]
  omega

theorem pool_le_of_withdraw (hc : self.erc20.Conserved)
    (hrate : previewWithdraw T this self assets = .ok shares ∨
      previewRedeem T this self shares = .ok assets)
    (h : _withdraw T this self caller receiver owner assets shares = .ok self') :
    pool ledger this self ≤ pool ledger this self' := by
  obtain ⟨he, htransfer, erc20, hspend, hburn⟩ := _withdraw_eq_ok h
  obtain ⟨-, hledger⟩ := hT.safeTransfer htransfer
  refine Pool.le_of_sells (sells_of_preview hT hrate) ?_ ?_
  · have hle : ledger self.tokens this ≤ ledger self'.tokens this + assets.toNat := by
      rw [hledger]
      exact Tally.le_move_add
    change ledger self.tokens this + 1 ≤ ledger self'.tokens this + 1 + assets.toNat
    omega
  · have hold : erc20.totalSupply = self.erc20.totalSupply := by rw [hspend]
    have herc20 : erc20.Conserved := by
      rw [hspend]
      exact hc
    have hsupply := herc20._burn_totalSupply hburn
    change virtualShares self' + shares.toNat = virtualShares self
    rw [virtualShares, virtualShares, he, ← hold]
    omega

/-- Calls by other accounts than the vault, which do not pay with the assets of the vault. -/
def Permitted (this : Address) (tx : Tx) : Prop :=
  tx.sender ≠ this ∧ ∀ c, tx.op = .asset c → c.payer tx.sender ≠ this

/-- **No call lowers the rate.** -/
theorem Effect.pool_le {op : Op} (hc : self.erc20.Conserved) (hP : Permitted this ⟨sender, op⟩)
    (h : Effect T this self sender op self') : pool ledger this self ≤ pool ledger this self' := by
  cases h with
  | deposited hrate h => exact pool_le_of_deposit hT hP.1 hrate h
  | withdrawn hrate h => exact pool_le_of_withdraw hT hc hrate h
  | share h =>
    refine Pool.le_of_assets_le le_rfl ?_
    change virtualShares _ = virtualShares _
    rw [virtualShares, virtualShares, Erc20.exec_totalSupply h]
  | asset h hdata =>
    have hle := (hT.moves h hdata).le_of_ne (hP.2 _ rfl).symm
    exact Pool.le_of_assets_le (Nat.succ_le_succ hle) rfl

end Calls

theorem Effect.erc4626_eq {op : Op} (h : Effect T this self sender op self') :
    self'.erc4626 = self.erc4626 := by
  cases h with
  | deposited _ h => exact (_deposit_eq_ok h).1
  | withdrawn _ h => exact (_withdraw_eq_ok h).1
  | share h => rfl
  | asset h hdata => rfl

/-- The shares add up to their supply. -/
theorem Effect.conserved {op : Op} (hc : self.erc20.Conserved)
    (h : Effect T this self sender op self') : self'.erc20.Conserved := by
  cases h with
  | deposited _ h =>
    obtain ⟨-, -, hmint⟩ := _deposit_eq_ok h
    exact hc._mint hmint
  | withdrawn _ h =>
    obtain ⟨-, -, erc20, hspend, hburn⟩ := _withdraw_eq_ok h
    have herc20 : erc20.Conserved := by
      rw [hspend]
      exact hc
    exact herc20._burn hburn
  | share h => exact (hc.exec h).1
  | asset h hdata => exact hc

/-! ### Runs -/

/-- The vault `e` with shares that add up to their supply. -/
structure Sound (e : Erc4626) (vault : Vault τ) : Prop where
  erc4626_eq : vault.erc4626 = e
  conserved : vault.erc20.Conserved

theorem Sound.deploy (t : τ) (asset : Address) (decimalsOffset : U8) :
    Sound (constructor asset decimalsOffset) (deploy t asset decimalsOffset) :=
  ⟨rfl, Erc20.conserved_empty⟩

theorem Sound.effect {e : Erc4626} {op : Op} (hs : Sound e self)
    (h : Effect T this self sender op self') : Sound e self' :=
  ⟨h.erc4626_eq.trans hs.erc4626_eq, h.conserved hs.conserved⟩

/-- The vaults that permitted calls lead to, from a deployment on. -/
abbrev Reachable (T : Tokens τ) (this : Address) (t : τ) (asset : Address) (decimalsOffset : U8) :
    Vault τ → Prop :=
  (machine T this).Reachable (fun _ tx => Permitted this tx) (deploy t asset decimalsOffset)

section Runs

variable {t : τ} {asset : Address} {decimalsOffset : U8}

theorem Reachable.sound (h : Reachable T this t asset decimalsOffset self) :
    Sound (constructor asset decimalsOffset) self :=
  h.invariant (Sound.deploy t asset decimalsOffset) fun _ _ _ hs _ hexec =>
    hs.effect (exec_eq_ok hexec)

/-- A permitted call in a reachable state does not lower the rate. -/
theorem Reachable.pool_le_exec (hT : T.Exact asset ledger)
    (h : Reachable T this t asset decimalsOffset self) {tx : Tx} (hP : Permitted this tx)
    (hexec : exec T this self tx = .ok self') :
    pool ledger this self ≤ pool ledger this self' := by
  have hs := Reachable.sound h
  have hasset : self.erc4626.asset = asset := by
    rw [hs.erc4626_eq]
    rfl
  exact (exec_eq_ok hexec).pool_le (hasset ▸ hT) hs.conserved hP

end Runs

/-! ### Round trips

The pool is what connects the two halves: the second is a trade with a pool that has grown by what
the first has paid. -/

section RoundTrip

variable {self'' : Vault τ} {sender' receiver' : Address} {assets' shares' : U256}
  (hT : T.Exact self.erc4626.asset ledger)
include hT

/-- A deposit adds at most its assets, whoever pays them. -/
theorem pool_assets_of_deposit
    (h : _deposit T this self caller receiver assets shares = .ok self') :
    (pool ledger this self').assets ≤ (pool ledger this self).assets + assets.toNat := by
  obtain ⟨-, htransfer, -⟩ := _deposit_eq_ok h
  obtain ⟨hle, hledger⟩ := hT.safeTransferFrom htransfer
  have hmove : ledger self'.tokens this ≤ ledger self.tokens this + assets.toNat := by
    rw [hledger]
    exact Tally.move_le hle
  change ledger self'.tokens this + 1 ≤ ledger self.tokens this + 1 + assets.toNat
  omega

theorem exact_of_deposit (h : _deposit T this self caller receiver assets shares = .ok self') :
    T.Exact self'.erc4626.asset ledger := by
  rw [(_deposit_eq_ok h).1]
  exact hT

/-- Redeeming the shares of a deposit brings at most what was deposited. -/
theorem redeem_le_of_deposit
    (h : deposit T this self sender assets receiver = .ok (shares, self'))
    (h' : redeem T this self' sender' shares receiver' owner = .ok (assets', self'')) :
    assets' ≤ assets := by
  obtain ⟨hpreview, hdeposit⟩ := deposit_eq_ok h
  obtain ⟨hpreview', -⟩ := redeem_eq_ok h'
  have hbuy := buys_of_preview hT (Or.inl hpreview)
  have hsell := sells_of_preview (exact_of_deposit hT hdeposit) (Or.inr hpreview')
  exact BitVec.le_def.mpr (hbuy.sells_assets_le (pool_assets_of_deposit hT hdeposit)
    (virtualShares_of_deposit hdeposit) (Nat.zero_le _) hsell)

/-- Withdrawing what was paid for shares burns at least these shares. -/
theorem le_withdraw_of_mint
    (h : mint T this self sender shares receiver = .ok (assets, self'))
    (h' : withdraw T this self' sender' assets receiver' owner = .ok (shares', self'')) :
    shares ≤ shares' := by
  obtain ⟨hpreview, hdeposit⟩ := mint_eq_ok h
  obtain ⟨hpreview', -⟩ := withdraw_eq_ok h'
  have hbuy := buys_of_preview hT (Or.inr hpreview)
  have hsell := sells_of_preview (exact_of_deposit hT hdeposit) (Or.inl hpreview')
  exact BitVec.le_def.mpr (hbuy.le_sells_shares (pool_assets_of_deposit hT hdeposit)
    (virtualShares_of_deposit hdeposit) (Nat.zero_le _) (Nat.add_pos_left (Nat.succ_pos _) _)
    hsell)

end RoundTrip

/-! ### The share price

Two rates are compared by multiplying crosswise, so that nothing is rounded in the statement. -/

/-- **The share price never falls.** With `A` the total assets and `S` the supply of the shares,
`(A + 1) / (S + 10 ^ offset)` does not become smaller by any call, in any run. In no state does a
deposit followed by a redemption of its shares, or a mint followed by a withdrawal of its assets,
gain anything. -/
theorem sharePrice_never_falls {asset : Address} (hT : T.Exact asset ledger) :
    (∀ (t : τ) (decimalsOffset : U8) (self self' : Vault τ) (tx : Tx) (A A' : U256),
      Reachable T this t asset decimalsOffset self → Permitted this tx →
      exec T this self tx = .ok self' →
      totalAssets T this self = .ok A → totalAssets T this self' = .ok A' →
      (A'.toNat + 1) * (self.erc20.totalSupply.toNat + 10 ^ decimalsOffset.toNat) ≥
        (A.toNat + 1) * (self'.erc20.totalSupply.toNat + 10 ^ decimalsOffset.toNat)) ∧
    (∀ (self self' self'' : Vault τ) (sender receiver sender' receiver' owner : Address)
        (assets shares assets' : U256), self.erc4626.asset = asset →
      deposit T this self sender assets receiver = .ok (shares, self') →
      redeem T this self' sender' shares receiver' owner = .ok (assets', self'') →
      assets' ≤ assets) ∧
    (∀ (self self' self'' : Vault τ) (sender receiver sender' receiver' owner : Address)
        (shares assets shares' : U256), self.erc4626.asset = asset →
      mint T this self sender shares receiver = .ok (assets, self') →
      withdraw T this self' sender' assets receiver' owner = .ok (shares', self'') →
      shares ≤ shares') := by
  refine ⟨?_, ?_, ?_⟩
  · intro t decimalsOffset self self' tx A A' hreach hP hexec hA hA'
    have hs := Reachable.sound hreach
    have hs' := hs.effect (exec_eq_ok hexec)
    have hasset : ∀ {v : Vault τ}, Sound (constructor asset decimalsOffset) v →
        T.Exact v.erc4626.asset ledger := fun hv => by
      rw [hv.erc4626_eq]
      exact hT
    have hshares : ∀ {v : Vault τ}, Sound (constructor asset decimalsOffset) v →
        v.erc20.totalSupply.toNat + 10 ^ decimalsOffset.toNat = virtualShares v := fun hv => by
      rw [virtualShares, hv.erc4626_eq]
      rfl
    rw [totalAssets_eq_ok (hasset hs) hA, totalAssets_eq_ok (hasset hs') hA', hshares hs,
      hshares hs']
    exact Reachable.pool_le_exec hT hreach hP hexec
  · rintro self self' self'' sender receiver sender' receiver' owner assets shares assets' rfl
    exact redeem_le_of_deposit hT
  · rintro self self' self'' sender receiver sender' receiver' owner shares assets shares' rfl
    exact le_withdraw_of_mint hT

/-! ### A run on fixed inputs -/

/-- Account `1` deposits 5, donates 7, and is about to deposit 3: the vault is at address `200`, and
its asset is the ERC-20 of this repository at address `100`. -/
theorem sharePrice_never_falls_donation : ∃ s s' : Vault Erc20.Deployed,
    Reachable (Erc20.deployed 100) 200 (Erc20.Deployed.fund 1 1000) 100 0 s ∧
    exec (Erc20.deployed 100) 200 s ⟨1, .deposit 3 1⟩ = .ok s' ∧
    (15 + 1) * (5 + 10 ^ 0) ≥ (12 + 1) * (6 + 10 ^ 0) ∧
    (∃ s₁ s₂, deposit (Erc20.deployed 100) 200 s 1 3 1 = .ok (1, s₁) ∧
      redeem (Erc20.deployed 100) 200 s₁ 1 1 1 1 = .ok (2, s₂) ∧ (2 : U256) ≤ 3) ∧
    (∃ s₁ s₂, mint (Erc20.deployed 100) 200 s 1 1 1 = .ok (3, s₁) ∧
      withdraw (Erc20.deployed 100) 200 s₁ 1 3 1 1 = .ok (2, s₂) ∧ (1 : U256) ≤ 2) := by
  let T := Erc20.deployed 100
  have hone : (1 : Address) ≠ 200 := by decide
  have hpermitted : ∀ assets, Permitted 200 ⟨1, .deposit assets 1⟩ := fun _ => ⟨hone, nofun⟩
  obtain ⟨s, hs, hlook⟩ := (machine T 200).exists_reachable (P := fun _ tx => Permitted 200 tx)
    (deploy (Erc20.Deployed.fund 1 1000) 100 0)
    [⟨1, .asset (.approve 200 (MAX 256))⟩, ⟨1, .deposit 5 1⟩, ⟨1, .asset (.transfer 200 7)⟩]
    (fun s => (s.erc4626.asset, (do
      let A ← totalAssets T 200 s
      let s' ← exec T 200 s ⟨1, .deposit 3 1⟩
      let A' ← totalAssets T 200 s'
      let (shares, s₁) ← deposit T 200 s 1 3 1
      let (assets, _) ← redeem T 200 s₁ 1 shares 1 1
      let (assets', t₁) ← mint T 200 s 1 1 1
      let (shares', _) ← withdraw T 200 t₁ 1 assets' 1 1
      pure [A, s.erc20.totalSupply, A', s'.erc20.totalSupply, shares, assets, assets', shares'] :
        Result Error _).toOption))
    (100, some [12, 5, 15, 6, 1, 2, 3, 2])
    (by
      intro tx htx _
      simp only [List.mem_cons, List.not_mem_nil, or_false] at htx
      rcases htx with rfl | rfl | rfl
      · exact ⟨hone, by rintro c ⟨⟩; exact hone⟩
      · exact hpermitted 5
      · exact ⟨hone, by rintro c ⟨⟩; exact hone⟩)
    (by decide +kernel)
  simp only [Prod.mk.injEq, Except.toOption_eq_some, bind_eq_ok, pure_eq_ok, List.cons.injEq,
    and_true] at hlook
  obtain ⟨hasset, A, hA, s', hexec, A', hA', ⟨_, s₁⟩, hdeposit, ⟨_, s₂⟩, hredeem, ⟨_, t₁⟩, hmint,
    ⟨_, t₂⟩, hwithdraw, rfl, hS, rfl, hS', rfl, rfl, rfl, rfl⟩ := hlook
  obtain ⟨hprice, hdown, hup⟩ := sharePrice_never_falls (Erc20.deployed_exact 100)
  refine ⟨s, s', hs, hexec, ?_, ⟨s₁, s₂, hdeposit, hredeem, ?_⟩, t₁, t₂, hmint, hwithdraw, ?_⟩
  · have hle := hprice _ _ s s' _ 12 15 hs (hpermitted 3) hexec hA hA'
    rw [hS, hS'] at hle
    exact hle
  · exact hdown s s₁ s₂ _ _ _ _ _ _ _ _ hasset hdeposit hredeem
  · exact hup s t₁ t₂ _ _ _ _ _ _ _ _ hasset hmint hwithdraw

end Erc4626

end ContractsStylus
