import ContractsStylus.Token.Erc4626Rate

/-!
# Holders who do nothing

Who holds shares of a vault depends on what others do with it: they deposit and withdraw, and they
may send assets to the vault, which makes a share worth more than what the next deposit is rounded
by. The rate never falls, and the shares of an account fall only by what it does itself or has
allowed others to do.

So whatever others do, they do not take from the vault what stands behind the shares of an account
that does nothing. And who deposits can lose no more than one share is worth, which is the price of
all the shares that the vault counts beside those that were issued: to make a share that expensive
costs the others a multiple of what is lost.

## What is kept

`Kept` compares two states of a vault: the rate is not lower, and some accounts have not fewer
shares. Every call of somebody who has no allowance from these accounts keeps it, so it holds
between the ends of every run of others. Both results apply the pool lemmas of the library to it.

The accounts are a finite set, and what is behind their shares is stated for all of them together.
That is more than for each of them: the assets that are left are enough to pay them all out.

## Inflation

A deposit is rounded down to whole shares, and who makes a share expensive before can have it
rounded down to none. The assets are not lost to the vault, though. `deposit_guarded` compares what
the depositor has lost with what the others have left in the vault to bring this about, which is a
multiple of it that grows with the offset.

## Main definitions

* `Erc4626.Passive` — calls by accounts that some holders have not allowed anything
* `Erc4626.Kept` — what such calls keep

## Main results

* `Erc4626.passive_holders` — the shares of such holders and their worth do not fall
* `Erc4626.deposit_guarded` — what a deposit can lose, and what this costs the others
-/

namespace ContractsStylus

namespace Erc4626

variable {τ : Type} {T : Tokens τ} {this : Address} {ledger : τ → Address → ℕ}
  {self self' s s' : Vault τ} {sender caller receiver owner holder : Address}
  {assets shares A A' : U256}

/-! ### Shares of others

Shares leave an account by a withdrawal or by a transfer, and somebody else needs an allowance for
either. -/

/-- What is withdrawn for somebody else needs an allowance. -/
theorem held_le_of_withdraw (hne : caller ≠ holder)
    (hallowance : self.erc20.allowance holder caller = 0)
    (h : _withdraw T this self caller receiver owner assets shares = .ok self') :
    self.erc20.held holder ≤ self'.erc20.held holder := by
  simp only [_withdraw, bind_eq_ok, mapErr_eq_ok] at h
  obtain ⟨erc20, hspend, burned, hburn, tokens, -, h⟩ := h
  obtain rfl := pure_eq_ok.mp h
  have hheld : erc20.held = self.erc20.held ∧ (owner = holder → shares = 0) := by
    split at hspend
    · have hspend := mapErr_eq_ok.mp hspend
      refine ⟨?_, ?_⟩
      · rw [Erc20._spendAllowance_eq_ok hspend]
        rfl
      · rintro rfl
        have hle := (Erc20._spendAllowance_allowance hspend).1
        rw [hallowance] at hle
        exact BitVec.le_zero_iff.mp hle
    · rename_i heq
      obtain rfl := Except.ok.inj hspend
      exact ⟨rfl, fun howner => absurd ((not_not.mp heq).trans howner) hne⟩
  change self.erc20.held holder ≤ burned.held holder
  rw [(Erc20._burn_held hburn).2, hheld.1, Function.update_apply]
  split
  · rename_i howner
    rw [hheld.2 howner.symm, howner]
    exact le_of_eq (Nat.sub_zero _).symm
  · exact le_rfl

/-- So does what is transferred for somebody else. -/
theorem held_le_of_exec {erc20 erc20' : Erc20} {c : Erc20.Call} {ok : Bool}
    (hc : erc20.Conserved) (hne : caller ≠ holder) (hallowance : erc20.allowance holder caller = 0)
    (h : erc20.exec caller c = .ok (ok, erc20')) : erc20.held holder ≤ erc20'.held holder := by
  obtain ⟨-, hmoves⟩ := hc.exec h
  by_cases hpayer : holder = c.payer caller
  · cases c with
    | transfer dst value => exact absurd hpayer.symm hne
    | approve spender value => exact absurd hpayer.symm hne
    | transferFrom src dst value =>
      obtain rfl : holder = src := hpayer
      obtain ⟨t, hspend, -⟩ := bind_eq_ok.mp h
      have hle := (Erc20._spendAllowance_allowance hspend).1
      rw [hallowance] at hle
      have hmove : erc20.held holder ≤ erc20'.held holder + value.toNat := by
        rw [hmoves.2]
        exact Tally.le_move_add
      rwa [BitVec.le_zero_iff.mp hle] at hmove
  · exact hmoves.le_of_ne hpayer

/-- **Shares of others stay where they are.** -/
theorem Effect.held_le {op : Op} (hc : self.erc20.Conserved) (hne : caller ≠ holder)
    (hallowance : self.erc20.allowance holder caller = 0)
    (h : Effect T this self caller op self') :
    self.erc20.held holder ≤ self'.erc20.held holder := by
  cases h with
  | deposited _ h =>
    obtain ⟨-, -, hmint⟩ := _deposit_eq_ok h
    rw [hc._mint_held hmint, Function.update_apply]
    split
    · rename_i heq
      rw [heq]
      exact Nat.le_add_right ..
    · exact le_rfl
  | withdrawn _ h => exact held_le_of_withdraw hne hallowance h
  | share h => exact held_le_of_exec hc hne hallowance h
  | asset _ _ => exact le_rfl

/-! ### Runs of others

That there is no allowance from the accounts in `H` is asked of each caller, in the state in which
it calls. -/

/-- Calls by others than the accounts in `H`, which have not allowed the caller anything. -/
def Passive (H : Finset Address) (this : Address) (self : Vault τ) (tx : Tx) : Prop :=
  Permitted this tx ∧ ∀ holder ∈ H, tx.sender ≠ holder ∧ self.erc20.allowance holder tx.sender = 0

variable {H : Finset Address}

/-- A call of the vault. -/
theorem Passive.of_call (op : Op) (hop : ∀ c, op ≠ .asset c) (hthis : caller ≠ this)
    (hne : caller ≠ holder) (hallowance : self.erc20.allowance holder caller = 0) :
    Passive {holder} this self ⟨caller, op⟩ := by
  refine ⟨⟨hthis, fun c hc => absurd hc (hop c)⟩, fun a ha => ?_⟩
  obtain rfl := Finset.mem_singleton.mp ha
  exact ⟨hne, hallowance⟩

/-- What is left of a vault while the accounts in `H` do nothing. -/
structure Kept (ledger : τ → Address → ℕ) (this : Address) (H : Finset Address)
    (s s' : Vault τ) : Prop where
  sound : Sound s.erc4626 s'
  rate : pool ledger this s ≤ pool ledger this s'
  held : ∀ holder ∈ H, s.erc20.held holder ≤ s'.erc20.held holder

theorem Kept.of_reachable (hT : T.Exact s.erc4626.asset ledger) (hc : s.erc20.Conserved)
    (h : (machine T this).Reachable (Passive H this) s s') : Kept ledger this H s s' := by
  refine h.invariant ⟨⟨rfl, hc⟩, le_rfl, fun _ _ => le_rfl⟩ ?_
  rintro t tx t' ⟨hsound, hrate, hheld⟩ ⟨hpermitted, hpassive⟩ hexec
  have heffect := exec_eq_ok hexec
  have hT' : T.Exact t.erc4626.asset ledger := hsound.erc4626_eq ▸ hT
  refine ⟨hsound.effect heffect, ?_, fun holder hholder => ?_⟩
  · exact hrate.trans (heffect.pool_le hT' hsound.conserved hpermitted)
  · obtain ⟨hne, hallowance⟩ := hpassive holder hholder
    exact (hheld holder hholder).trans (heffect.held_le hsound.conserved hne hallowance)

theorem Kept.exact (h : Kept ledger this H s s') (hT : T.Exact s.erc4626.asset ledger) :
    T.Exact s'.erc4626.asset ledger :=
  h.sound.erc4626_eq ▸ hT

/-- The shares of some accounts, and those that the vault counts beside the issued ones. -/
theorem sum_held_le_virtualShares (hc : self.erc20.Conserved) (H : Finset Address) :
    ∑ holder ∈ H, self.erc20.held holder + 10 ^ self.erc4626.decimalsOffset.toNat ≤
      virtualShares self := by
  rw [virtualShares, ← (hc : _ = _)]
  exact Nat.add_le_add_right (Finset.sum_le_univ_sum_of_nonneg fun _ => Nat.zero_le _) _

theorem Kept.sum_held_le (h : Kept ledger this H s s') :
    ∑ holder ∈ H, s.erc20.held holder + 10 ^ s.erc4626.decimalsOffset.toNat ≤ virtualShares s' :=
  calc _ ≤ ∑ holder ∈ H, s'.erc20.held holder + 10 ^ s.erc4626.decimalsOffset.toNat :=
        Nat.add_le_add_right (Finset.sum_le_sum h.held) _
    _ ≤ virtualShares s' := by
        rw [← h.sound.erc4626_eq]
        exact sum_held_le_virtualShares h.sound.conserved H

/-- What can be withdrawn for the shares of an account does not become less. -/
theorem Kept.maxWithdraw_le {m m' : U256} (h : Kept ledger this H s s')
    (hT : T.Exact s.erc4626.asset ledger) (hholder : holder ∈ H)
    (hm : maxWithdraw T this s holder = .ok m) (hm' : maxWithdraw T this s' holder = .ok m') :
    m ≤ m' := by
  obtain ⟨A', hA', hassets'⟩ := _convertToAssets_eq_ok hm'
  have hsell := (sells_of_preview hT (Or.inr hm)).of_le h.rate (Nat.zero_le _)
  rw [totalAssets_eq_ok (h.exact hT) hA'] at hassets'
  refine BitVec.le_def.mpr (hassets' ▸ (Nat.le_div_iff_mul_le (virtualShares_pos s')).mpr ?_)
  exact hsell.trans (Nat.mul_le_mul_right _ (h.held holder hholder))

/-- **Holders who do nothing keep what they have.** From any reachable state on, whatever is called
by accounts other than those in `H`, and which these have not allowed anything: the shares of an
account in `H` do not become fewer and what can be withdrawn for them not less. What all the others
leave in the vault is no less than what was behind the shares of `H`: with `A` the total assets and
`S` the supply before, and `A'` the total assets after the run, the `A' + 1` are worth the shares of
`H` and the `10 ^ offset` at the rate of `A + 1` to `S + 10 ^ offset`. -/
theorem passive_holders {asset : Address} {t : τ} {decimalsOffset : U8}
    (hT : T.Exact asset ledger) (hs : Reachable T this t asset decimalsOffset s)
    (h : (machine T this).Reachable (Passive H this) s s') :
    (∀ holder ∈ H, s.erc20.balanceOf holder ≤ s'.erc20.balanceOf holder) ∧
    (∀ holder ∈ H, ∀ m m', maxWithdraw T this s holder = .ok m →
      maxWithdraw T this s' holder = .ok m' → m ≤ m') ∧
    ∀ A A', totalAssets T this s = .ok A → totalAssets T this s' = .ok A' →
      (∑ holder ∈ H, (s.erc20.balanceOf holder).toNat + 10 ^ decimalsOffset.toNat) *
          (A.toNat + 1) ≤
        (A'.toNat + 1) * (s.erc20.totalSupply.toNat + 10 ^ decimalsOffset.toNat) := by
  have hsound := Reachable.sound hs
  have hTs : T.Exact s.erc4626.asset ledger := hsound.erc4626_eq ▸ hT
  have hkept := Kept.of_reachable hTs hsound.conserved h
  refine ⟨fun holder hholder => BitVec.le_def.mpr (hkept.held holder hholder),
    fun holder hholder m m' => hkept.maxWithdraw_le hTs hholder, fun A A' hA hA' => ?_⟩
  have hoffset : s.erc4626.decimalsOffset = decimalsOffset := by
    rw [hsound.erc4626_eq]
    rfl
  rw [totalAssets_eq_ok hTs hA, totalAssets_eq_ok (hkept.exact hTs) hA', ← hoffset]
  calc _ ≤ virtualShares s' * (ledger s.tokens this + 1) :=
        Nat.mul_le_mul_right _ hkept.sum_held_le
    _ = (ledger s.tokens this + 1) * virtualShares s' := Nat.mul_comm ..
    _ ≤ (ledger s'.tokens this + 1) * virtualShares s := hkept.rate

/-- Accounts `1` and `2` hold five shares each and nine assets were donated; account `1` redeems all
that it has, and deposits some of it again. -/
theorem passive_holders_two : ∃ s s' : Vault Erc20.Deployed,
    Reachable (Erc20.deployed 100) 200 (Erc20.Deployed.fund 1 1000) 100 0 s ∧
    (machine (Erc20.deployed 100) 200).Reachable (Passive {2} 200) s s' ∧
    totalAssets (Erc20.deployed 100) 200 s = .ok 19 ∧
    totalAssets (Erc20.deployed 100) 200 s' = .ok 13 ∧
    (∀ holder ∈ ({2} : Finset Address), s.erc20.balanceOf holder ≤ s'.erc20.balanceOf holder) ∧
    (5 + 10 ^ 0) * (19 + 1) ≤ (13 + 1) * (10 + 10 ^ 0) := by
  let T := Erc20.deployed 100
  have hone : (1 : Address) ≠ 200 := by decide
  obtain ⟨s, hs, hlook⟩ := (machine T 200).exists_reachable (P := fun _ tx => Permitted 200 tx)
    (deploy (Erc20.Deployed.fund 1 1000) 100 0)
    [⟨1, .asset (.approve 200 (MAX 256))⟩, ⟨1, .deposit 5 1⟩, ⟨1, .deposit 5 2⟩,
      ⟨1, .asset (.transfer 200 9)⟩]
    (fun s => (do
      let s₁ ← exec T 200 s ⟨1, .redeem 5 1 1⟩
      let s₂ ← exec T 200 s₁ ⟨1, .deposit 3 1⟩
      let A ← totalAssets T 200 s
      let A' ← totalAssets T 200 s₂
      pure [s.erc20.allowance 2 1, s₁.erc20.allowance 2 1, A, A', s.erc20.balanceOf 2,
        s.erc20.totalSupply] : Result Error _).toOption)
    (some [0, 0, 19, 13, 5, 10])
    (by
      intro tx htx _
      simp only [List.mem_cons, List.not_mem_nil, or_false] at htx
      rcases htx with rfl | rfl | rfl | rfl
      · exact ⟨hone, by rintro c ⟨⟩; exact hone⟩
      · exact ⟨hone, by rintro c ⟨⟩⟩
      · exact ⟨hone, by rintro c ⟨⟩⟩
      · exact ⟨hone, by rintro c ⟨⟩; exact hone⟩)
    (by decide +kernel)
  simp only [Except.toOption_eq_some, bind_eq_ok, pure_eq_ok, List.cons.injEq, and_true] at hlook
  obtain ⟨s₁, hredeem, s₂, hdeposit, A, hA, A', hA', hallowance, hallowance₁, rfl, rfl, hheld,
    hsupply⟩ := hlook
  have hfirst : (machine T 200).Reachable (Passive {2} 200) s s₁ :=
    .step .refl (.of_call (.redeem 5 1 1) (by rintro c ⟨⟩) hone (by decide) hallowance) hredeem
  have hrun : (machine T 200).Reachable (Passive {2} 200) s s₂ :=
    .step hfirst (.of_call (.deposit 3 1) (by rintro c ⟨⟩) hone (by decide) hallowance₁) hdeposit
  obtain ⟨hkeep, -, hleft⟩ := passive_holders (Erc20.deployed_exact 100) hs hrun
  have hleft := hleft 19 13 hA hA'
  rw [Finset.sum_singleton, hheld, hsupply] at hleft
  exact ⟨s, s₂, hs, hrun, hA, hA', hkeep, hleft⟩

/-! ### Deposits

One share more than a deposit bought is worth more than was deposited, right after it and after
whatever others do. The rest is arithmetic with the shares that the vault counts then, among them
those that were bought and those that the offset adds. -/

/-- A deposit buys as many shares as its assets are worth: one more would be worth more. -/
theorem outweighs_of_previewDeposit (hT : T.Exact self.erc4626.asset ledger)
    (h : previewDeposit T this self assets = .ok shares) :
    (pool ledger this self).Outweighs (shares.toNat + 1) assets.toNat := by
  obtain ⟨A, hA, hshares⟩ := _convertToShares_eq_ok h
  rw [totalAssets_eq_ok hT hA] at hshares
  refine (Nat.div_lt_iff_lt_mul (Nat.succ_pos _)).mp (Nat.lt_succ_of_le ?_)
  exact hshares.ge

/-- After a deposit, and whatever is called after it, one share more than it bought is worth more
than was deposited. -/
theorem Kept.outweighs_of_deposit (hT : T.Exact self.erc4626.asset ledger) (hcaller : caller ≠ this)
    (hdeposit : deposit T this self caller assets receiver = .ok (shares, s))
    (h : Kept ledger this H s s') :
    (pool ledger this s').Outweighs (shares.toNat + 1) assets.toNat := by
  obtain ⟨hpreview, hdeposit⟩ := deposit_eq_ok hdeposit
  obtain ⟨-, htransfer, -⟩ := _deposit_eq_ok hdeposit
  have hassets : (pool ledger this s).assets = (pool ledger this self).assets + assets.toNat := by
    change ledger s.tokens this + 1 = ledger self.tokens this + 1 + assets.toNat
    rw [(hT.safeTransferFrom htransfer).2, Tally.move_dst hcaller]
    omega
  have hbought := (outweighs_of_previewDeposit hT hpreview).of_buys (Nat.zero_le _) hassets
    (virtualShares_of_deposit hdeposit)
  exact hbought.of_le h.rate (Nat.zero_le _)

/-- **A deposit is guarded against inflated shares.** In any reachable state, however expensive its
shares were made, let somebody deposit `assets` for `shares`, and let the others call whatever they
like after it. Then the vault has at least `assets` for as long as the receiver keeps the shares, so
that nobody gains by making them round to nothing. With `A` the total assets in the end and `S` the
supply, `shares` are worth `shares * (A + 1) / (S + 10 ^ offset)`, and for each asset that this is
less than what was deposited the others have left `10 ^ offset - 1` in the vault beside the deposit,
but for less than one altogether. -/
theorem deposit_guarded {asset : Address} {t : τ} {decimalsOffset : U8} (hT : T.Exact asset ledger)
    (hself : Reachable T this t asset decimalsOffset self) (hcaller : caller ≠ this)
    (hdeposit : deposit T this self caller assets receiver = .ok (shares, s))
    (h : (machine T this).Reachable (Passive {receiver} this) s s')
    (hA : totalAssets T this s' = .ok A) :
    assets ≤ A ∧
      (10 ^ decimalsOffset.toNat - 1) *
          ((assets.toNat : ℤ) * (s'.erc20.totalSupply.toNat + 10 ^ decimalsOffset.toNat) -
            shares.toNat * (A.toNat + 1)) <
        (A.toNat + 1 - assets.toNat) *
          (s'.erc20.totalSupply.toNat + 10 ^ decimalsOffset.toNat) := by
  have hsound := Reachable.sound hself
  have hTself : T.Exact self.erc4626.asset ledger := hsound.erc4626_eq ▸ hT
  obtain ⟨hpreview, hdep⟩ := deposit_eq_ok hdeposit
  obtain ⟨he, -, hmint⟩ := _deposit_eq_ok hdep
  have hTs : T.Exact s.erc4626.asset ledger := he ▸ hTself
  have hkept := Kept.of_reachable hTs (hsound.conserved._mint hmint) h
  have hworth := hkept.outweighs_of_deposit hTself hcaller hdeposit
  have hoffset : s.erc4626.decimalsOffset = decimalsOffset := by
    rw [he, hsound.erc4626_eq]
    rfl
  -- the shares that were bought are still there, beside those that the offset adds
  have hheld : shares.toNat ≤ s.erc20.held receiver := by
    rw [hsound.conserved._mint_held hmint, Function.update_self]
    exact Nat.le_add_left ..
  have hshares : shares.toNat + 10 ^ decimalsOffset.toNat ≤ virtualShares s' := by
    have hsum := hkept.sum_held_le
    rw [Finset.sum_singleton, hoffset] at hsum
    exact (Nat.add_le_add_right hheld _).trans hsum
  have hpos : 0 < 10 ^ decimalsOffset.toNat := Nat.pow_pos (by decide)
  have hcost := hworth.cost hpos hshares
  have hlt := hworth.lt_assets (Nat.zero_le _) ((Nat.add_le_add_left hpos _).trans hshares)
  have hvirtual : virtualShares s' = s'.erc20.totalSupply.toNat + 10 ^ decimalsOffset.toNat := by
    rw [virtualShares, hkept.sound.erc4626_eq, hoffset]
  change _ < ledger s'.tokens this + 1 at hlt
  change _ * ((assets.toNat : ℤ) * virtualShares s' -
    shares.toNat * (ledger s'.tokens this + 1 : ℕ)) <
    ((ledger s'.tokens this + 1 : ℕ) - assets.toNat) * virtualShares s' at hcost
  rw [← totalAssets_eq_ok (hkept.exact hTs) hA] at hlt hcost
  rw [hvirtual] at hcost
  refine ⟨BitVec.le_def.mpr (Nat.lt_succ_iff.mp hlt), ?_⟩
  exact_mod_cast hcost

/-- Account `1` has one share and donates 200 assets, so that the 60 which account `2` deposits are
rounded to no share at all. When account `1` redeems its share, 130 assets stay in the vault. -/
theorem deposit_guarded_inflated : ∃ s s₁ s₂ : Vault Erc20.Deployed,
    Reachable (Erc20.deployed 100) 200 (Erc20.Deployed.fund 1 1000) 100 0 s ∧
    deposit (Erc20.deployed 100) 200 s 2 60 2 = .ok (0, s₁) ∧
    (machine (Erc20.deployed 100) 200).Reachable (Passive {2} 200) s₁ s₂ ∧
    totalAssets (Erc20.deployed 100) 200 s₂ = .ok 130 ∧ (60 : U256) ≤ 130 := by
  let T := Erc20.deployed 100
  have hone : (1 : Address) ≠ 200 := by decide
  have htwo : (2 : Address) ≠ 200 := by decide
  obtain ⟨s, hs, hlook⟩ := (machine T 200).exists_reachable (P := fun _ tx => Permitted 200 tx)
    (deploy (Erc20.Deployed.fund 1 1000) 100 0)
    [⟨1, .asset (.approve 200 (MAX 256))⟩, ⟨1, .deposit 1 1⟩, ⟨1, .asset (.transfer 200 200)⟩,
      ⟨1, .asset (.transfer 2 100)⟩, ⟨2, .asset (.approve 200 (MAX 256))⟩]
    (fun s => (do
      let deposited ← deposit T 200 s 2 60 2
      let s₂ ← exec T 200 deposited.2 ⟨1, .redeem 1 1 1⟩
      let A ← totalAssets T 200 s₂
      pure [deposited.1, deposited.2.erc20.allowance 2 1, A] : Result Error _).toOption)
    (some [0, 0, 130])
    (by
      intro tx htx _
      simp only [List.mem_cons, List.not_mem_nil, or_false] at htx
      rcases htx with rfl | rfl | rfl | rfl | rfl
      · exact ⟨hone, by rintro c ⟨⟩; exact hone⟩
      · exact ⟨hone, by rintro c ⟨⟩⟩
      · exact ⟨hone, by rintro c ⟨⟩; exact hone⟩
      · exact ⟨hone, by rintro c ⟨⟩; exact hone⟩
      · exact ⟨htwo, by rintro c ⟨⟩; exact htwo⟩)
    (by decide +kernel)
  simp only [Except.toOption_eq_some, bind_eq_ok, pure_eq_ok, List.cons.injEq, and_true] at hlook
  obtain ⟨⟨_, s₁⟩, hdeposit, s₂, hredeem, A, hA, rfl, hallowance, rfl⟩ := hlook
  have hrun : (machine T 200).Reachable (Passive {2} 200) s₁ s₂ :=
    .step .refl (.of_call (.redeem 1 1 1) (by rintro c ⟨⟩) hone (by decide) hallowance) hredeem
  have hguarded := deposit_guarded (Erc20.deployed_exact 100) hs htwo hdeposit hrun hA
  exact ⟨s, s₁, s₂, hs, hdeposit, hrun, hA, hguarded.1⟩

end Erc4626

end ContractsStylus
