import ContractsStylus.Token.Erc20Runs
import ContractsStylus.Token.SafeErc20

/-!
# Tokens in custody

What a contract that holds tokens of another contract relies on, beside that the token moves what
it is asked to: nobody else takes its tokens without an allowance of its own making, and it is
paid out when it asks for what it has. Both are properties of the parameter `Tokens`, and the
ERC-20 of this repository has them.

## As hypotheses

A wrapper or a wallet can only be right about tokens that are right. What these are asked for is
stated for the token at one address and for one owner, with two functions that read the state of the
other contracts as numbers: what accounts have, and what the owner has left to others to spend.
Calls of the token that fail are not restricted, and neither are its other functions.

`Apart` is about the contracts at other addresses. It is needed where a contract calls tokens that
somebody else names.

## Main definitions

* `Tokens.Guarded` — only allowances let others take the tokens of an owner
* `Tokens.Pays` — a transfer of what its sender has succeeds
* `Tokens.Apart` — other contracts do not take the tokens of their caller

## Main results

* `Tokens.Guarded.le_of_moves` — without allowances, others do not take anything
* `Erc20.deployed_guarded`, `Erc20.deployed_pays` — the ERC-20 of this repository
-/

namespace ContractsStylus

/-- A token that takes from `owner` by allowances only, with `allowed` what is left of those. -/
structure Tokens.Guarded {τ : Type} (T : Tokens τ) (token owner : Address)
    (allowed : τ → Address → ℕ) : Prop where
  /-- What another account takes is covered. -/
  spends : ∀ {t t' : τ} {sender dst : Address} {value : U256} {data : Bytes}, sender ≠ owner →
    T.call t sender token (.transferFrom owner dst value) = .ok (data, t') →
      SafeErc20.isSuccess data → value.toNat ≤ allowed t sender
  /-- Only approvals of the owner allow more. -/
  grants : ∀ {t t' : τ} {sender : Address} {c : Erc20.Call} {data : Bytes},
    T.call t sender token c = .ok (data, t') → SafeErc20.isSuccess data →
      (∀ spender value, sender = owner → c ≠ .approve spender value) →
        ∀ spender, allowed t' spender ≤ allowed t spender

/-- A token that lets `payer` pay what it has. -/
def Tokens.Pays {τ : Type} (T : Tokens τ) (token payer : Address) (ledger : τ → Address → ℕ) :
    Prop :=
  ∀ (t : τ) (dst : Address) (value : U256), dst ≠ 0 → value.toNat ≤ ledger t payer →
    ∃ t', SafeErc20.safeTransfer T payer t token dst value = .ok t'

/-- Other contracts, called by `owner`, neither take its tokens nor get an allowance of them. -/
def Tokens.Apart {τ : Type} (T : Tokens τ) (token owner : Address)
    (ledger allowed : τ → Address → ℕ) : Prop :=
  ∀ {t t' : τ} {callee : Address} {c : Erc20.Call} {data : Bytes}, callee ≠ token →
    T.call t owner callee c = .ok (data, t') →
      ledger t owner ≤ ledger t' owner ∧ ∀ spender, allowed t' spender ≤ allowed t spender

/-- **Without allowances, the calls of others take nothing.** -/
theorem Tokens.Guarded.le_of_moves {τ : Type} {T : Tokens τ} {token owner sender : Address}
    {ledger allowed : τ → Address → ℕ} {t t' : τ} {c : Erc20.Call} {data : Bytes}
    (hG : T.Guarded token owner allowed) (hT : T.Exact token ledger) (hsender : sender ≠ owner)
    (hallowed : allowed t sender = 0) (hcall : T.call t sender token c = .ok (data, t'))
    (hdata : SafeErc20.isSuccess data) : ledger t owner ≤ ledger t' owner := by
  have hmoves := hT.moves hcall hdata
  by_cases hpayer : owner = c.payer sender
  · cases c with
    | transfer dst value => exact absurd hpayer.symm hsender
    | approve spender value => exact absurd hpayer.symm hsender
    | transferFrom src dst value =>
      obtain rfl : owner = src := hpayer
      have hzero := hG.spends hsender hcall hdata
      rw [hallowed] at hzero
      obtain ⟨hle, heq⟩ := hmoves
      have hback := @Tally.le_move_add _ _ (ledger t) owner dst owner value.toNat
      rw [heq]
      omega
  · exact hmoves.le_of_ne hpayer

/-- Allowances come from approvals of the owner only. -/
theorem Tokens.Guarded.allowed_eq_zero {τ : Type} {T : Tokens τ} {token owner sender : Address}
    {allowed : τ → Address → ℕ} {t t' : τ} {c : Erc20.Call} (hG : T.Guarded token owner allowed)
    (hzero : ∀ spender, allowed t spender = 0)
    (hcall : SafeErc20.callOptionalReturn T sender t token c = .ok t')
    (hnot : ∀ spender value, sender = owner → c ≠ .approve spender value) (spender : Address) :
    allowed t' spender = 0 := by
  obtain ⟨data, hcall, hdata⟩ := SafeErc20.callOptionalReturn_eq_ok hcall
  have hle := hG.grants hcall hdata hnot spender
  rw [hzero] at hle
  exact Nat.le_zero.mp hle

/-! ### The ERC-20 of this repository -/

namespace Erc20

/-- **Only its own approvals** let others take the tokens of an account. -/
theorem deployed_guarded (token owner : Address) :
    (deployed token).Guarded token owner fun self spender =>
      (self.1.allowance owner spender).toNat where
  spends {self self' sender dst value data} _ h _ := by
    obtain ⟨answer, hexec⟩ := @Deployed.exec_of_call self self' sender
      (.transferFrom owner dst value) data (by simpa [deployed] using h)
    obtain ⟨t, ht, -⟩ := bind_eq_ok.mp hexec
    exact BitVec.le_def.mp (_spendAllowance_allowance ht).1
  grants {self self' sender c data} h _ hnot spender := by
    obtain ⟨answer, hexec⟩ := @Deployed.exec_of_call self self' sender c data
      (by simpa [deployed] using h)
    have hexec' : self.1.execTx ⟨sender, .call c⟩ = .ok self'.1 := snd_map_eq_ok.mpr ⟨answer, hexec⟩
    rcases allowance_cases hexec' owner spender with ⟨value, heq⟩ | ⟨dst, value, -, hle, heq⟩ |
      ⟨-, heq⟩
    · obtain ⟨hsender, hop⟩ := Tx.mk.inj heq
      exact absurd (Op.call.inj hop) (hnot spender value hsender)
    · rw [heq]
      split
      · rw [BitVec.toNat_sub_of_le hle]
        exact Nat.sub_le _ _
      · exact le_rfl
    · rw [heq]

/-- There are no other contracts. -/
theorem deployed_apart (token owner : Address) (ledger allowed : Deployed → Address → ℕ) :
    (deployed token).Apart token owner ledger allowed := by
  intro self self' callee c data hcallee h
  have h : Except.ok ([], self) = .ok (data, self') := (if_neg hcallee).symm.trans h
  obtain rfl := (Prod.mk.inj (Except.ok.inj h)).2
  exact ⟨le_rfl, fun _ => le_rfl⟩

/-- **What an account has, it can transfer.** -/
theorem deployed_pays (token : Address) {payer : Address} (hpayer : payer ≠ 0) :
    (deployed token).Pays token payer fun self => self.1.held := by
  intro self dst value hdst hle
  obtain ⟨s, hs⟩ := exists_transfer hpayer hdst hle
  have hexec : self.1.exec payer (.transfer dst value) = .ok (true, s) := by
    rw [exec, transfer, hs]
    rfl
  obtain ⟨self', hcall⟩ := Deployed.exists_call hexec
  have hcall' : (deployed token).call self payer token (.transfer dst value) =
      .ok (SafeErc20.boolAbiEncode true, self') := (if_pos rfl).trans hcall
  have hcode : (deployed token).hasCode self token = true := decide_eq_true rfl
  refine ⟨self', ?_⟩
  rw [SafeErc20.safeTransfer, SafeErc20.callOptionalReturn, hcode, hcall']
  rfl

end Erc20

end ContractsStylus
