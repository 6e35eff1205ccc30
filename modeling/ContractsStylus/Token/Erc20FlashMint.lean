import ContractsStylus.Library.Runs
import ContractsStylus.Token.Erc20

/-!
# ERC-3156 flash loans

The extension that mints a loan, hands control to the borrower, and takes the loan and a fee back
before it returns. What the borrower does in the meantime is a parameter; all that is assumed of it
is that it calls the token, and that may be for another loan.

## Loans within loans

A borrower has control between the mint and the repayment, with the loan in its balance. It may call
the token in any way, and take another loan. So a loan is a step of a `Run` that contains a run, and
runs carry the fees that were burned in them: these are what the supply has fallen by, all nested
loans included.

What a loan leaves behind is stated relative to the state in which the borrower has answered, since
what it did before is arbitrary. From there on it is exact: `Repaid` gives every balance.

The fee is burned when nobody is named to receive it, and the loan and the fee are then taken in one
burn. Otherwise they are taken by a burn and a transfer, and the borrower itself may be the
receiver.

## Main definitions

* `Erc20FlashMint`, `FlashToken` — the storage, and a token with both storages
* `Erc20FlashMint.flashLoan` — the loan, and `repay`, its second half
* `Erc20FlashMint.Run` — the calls of a token, loans with all that happens in them included, and
  the fees that were burned

## Main results

* `Erc20FlashMint.repay_eq_ok` — what is taken back
* `Erc20FlashMint.Run.conserved` — the balances add up to the supply, which falls by the fees that
  are burned
* `Erc20FlashMint.flashLoan_exact` — what a loan leaves behind
-/

namespace ContractsStylus
/-- State of an `Erc20FlashMint` contract. -/
structure Erc20FlashMint where
  /-- Fee applied when doing flash loans. -/
  flashFeeValue : U256
  /-- Receiver address of the flash fee. -/
  flashFeeReceiverAddress : Address
  deriving DecidableEq, Repr

/-- An ERC-20 token with the extension. -/
structure FlashToken where
  flashMint : Erc20FlashMint
  erc20 : Erc20

namespace Erc20FlashMint

/-- The hash of `ERC3156FlashBorrower.onFlashLoan`. -/
def BORROWER_CALLBACK_VALUE : B256 :=
  0x439148f0bbc682ca079e46d6e2c2f0c1e3b820f1a291b069d8882abf8cf18dd9

inductive Error
  | UnsupportedToken (token : Address)
  | ExceededMaxLoan (maxLoan : U256)
  | ERC3156InvalidReceiver (receiver : Address)
  | InsufficientBalance (sender : Address) (balance needed : U256)
  | InvalidSender (sender : Address)
  | InvalidReceiver (receiver : Address)
  | InsufficientAllowance (spender : Address) (allowance needed : U256)
  | InvalidSpender (spender : Address)
  | InvalidApprover (approver : Address)
  deriving DecidableEq, Repr

/-- `From<erc20::Error>`. -/
def Error.ofErc20 : Erc20.Error → Error
  | .InsufficientBalance sender balance needed => .InsufficientBalance sender balance needed
  | .InvalidSender sender => .InvalidSender sender
  | .InvalidReceiver receiver => .InvalidReceiver receiver
  | .InsufficientAllowance spender allowance needed =>
    .InsufficientAllowance spender allowance needed
  | .InvalidSpender spender => .InvalidSpender spender
  | .InvalidApprover approver => .InvalidApprover approver

/-- A call of `on_flash_loan`. -/
structure LoanCall where
  receiver : Address
  initiator : Address
  token : Address
  amount : U256
  fee : U256
  data : Bytes

/-- What a call of a flash lender depends on: who sends it, the address of the lender, which
accounts are contracts, and what borrowers do. -/
structure Env where
  sender : Address
  this : Address
  hasCode : Address → Bool
  borrowers : Reentrant.Callback LoanCall FlashToken B256 CallError

def maxFlashLoan (this token : Address) (erc20 : Erc20) : U256 :=
  if token = this then MAX 256 - erc20.totalSupply else 0

def flashFee (self : Erc20FlashMint) (this token : Address) (_value : U256) :
    Result Error U256 :=
  if token = this then .ok self.flashFeeValue else .err (.UnsupportedToken token)

/-- Call the borrower, of which any failure is taken for an invalid receiver. -/
def onFlashLoan (env : Env) (self : FlashToken) (a : LoanCall) :
    Result Error (B256 × FlashToken) :=
  match env.borrowers a self with
  | .ok (loanReturn, self) => .ok (loanReturn, self)
  | .error _ => .err (.ERC3156InvalidReceiver a.receiver)

/-- The second half of a loan: take back the loan and the fee. -/
def repay (self : FlashToken) (this receiver : Address) (value fee : U256) :
    Result Error FlashToken := do
  let allowance ← expect (checkedAdd value fee) "allowance should not exceed `U256::MAX`"
  let erc20 ← (self.erc20._spendAllowance receiver this allowance).mapErr Error.ofErc20
  let flashFeeReceiver := self.flashMint.flashFeeReceiverAddress
  let erc20 ← (if fee = 0 ∨ flashFeeReceiver = 0 then erc20._burn receiver allowance
    else do
      let erc20 ← erc20._burn receiver value
      erc20._transfer receiver flashFeeReceiver fee).mapErr Error.ofErc20
  pure { self with erc20 }

def flashLoan (env : Env) (self : FlashToken) (receiver token : Address) (value : U256)
    (data : Bytes) : Result Error (Bool × FlashToken) :=
  let maxLoan := maxFlashLoan env.this token self.erc20
  if value > maxLoan then .err (.ExceededMaxLoan maxLoan)
  else do
    let fee ← self.flashMint.flashFee env.this token value
    if !env.hasCode receiver then .err (.ERC3156InvalidReceiver receiver)
    else
      let erc20 ← (self.erc20._mint receiver value).mapErr Error.ofErc20
      let (loanReturn, self) ← onFlashLoan env { self with erc20 }
        ⟨receiver, env.sender, token, value, fee, data⟩
      if loanReturn ≠ BORROWER_CALLBACK_VALUE then .err (.ERC3156InvalidReceiver receiver)
      else
        let self ← repay self env.this receiver value fee
        pure (true, self)

/-- The fee of a loan, if nobody receives it. -/
def burnedFee (self : Erc20FlashMint) : ℕ :=
  if self.flashFeeReceiverAddress = 0 then self.flashFeeValue.toNat else 0

/-- The fee that an account receives of a loan. -/
def receivedFee (self : Erc20FlashMint) (account : Address) : ℕ :=
  if self.flashFeeReceiverAddress ≠ 0 ∧ account = self.flashFeeReceiverAddress then
    self.flashFeeValue.toNat
  else 0

/-! ### Runs -/

/-- Calls of the token at the address `this`, one after the other, which lead from one state to
another and burn some fees. In a loan the borrower may do anything that is itself a run. -/
inductive Run (this : Address) : FlashToken → ℕ → FlashToken → Prop
  | refl (s : FlashToken) : Run this s 0 s
  | call {s t : FlashToken} {fees : ℕ} {sender : Address} {c : Erc20.Call} {answer : Bool}
      {erc20 : Erc20} : Run this s fees t → t.erc20.exec sender c = .ok (answer, erc20) →
      Run this s fees { t with erc20 }
  | flashLoan {s t v : FlashToken} {fees nested : ℕ} {env : Env} {receiver token : Address}
      {value : U256} {data : Bytes} {answer : Bool} : Run this s fees t → env.this = this →
      (∀ erc20 b u, t.erc20._mint receiver value = .ok erc20 →
        env.borrowers ⟨receiver, env.sender, token, value, t.flashMint.flashFeeValue, data⟩
          { t with erc20 } = .ok (b, u) → Run this { t with erc20 } nested u) →
      flashLoan env t receiver token value data = .ok (answer, v) →
      Run this s (fees + nested + t.flashMint.burnedFee) v

variable {env : Env} {s t u v : FlashToken} {this receiver token : Address} {value fee : U256}
  {data : Bytes} {answer : Bool}

/-! ### The second half of a loan

What is taken back does not depend on what the borrower has done, but for the balances and the
allowance that it finds. The allowance is spent first; then come the burn and the fee. -/

/-- What taking a loan back does. -/
structure Repaid (this receiver : Address) (value : U256) (u v : FlashToken) : Prop where
  flashMint : v.flashMint = u.flashMint
  conserved : v.erc20.Conserved
  /-- The supply falls by the loan, and by the fee if nobody receives it. -/
  supply : v.erc20.totalSupply.toNat + value.toNat + u.flashMint.burnedFee =
    u.erc20.totalSupply.toNat
  /-- The borrower has what it owes. -/
  owed_le : value.toNat + u.flashMint.flashFeeValue.toNat ≤ u.erc20.held receiver
  /-- The borrower pays the loan and the fee, and the receiver of the fee gets the fee. -/
  held : ∀ account, v.erc20.held account +
      (if account = receiver then value.toNat + u.flashMint.flashFeeValue.toNat else 0) =
    u.erc20.held account + u.flashMint.receivedFee account
  /-- A finite allowance falls by the loan and the fee. -/
  allowance : u.erc20.allowance receiver this ≠ MAX 256 →
    (v.erc20.allowance receiver this).toNat +
      (value.toNat + u.flashMint.flashFeeValue.toNat) = (u.erc20.allowance receiver this).toNat
  /-- An infinite allowance stays as it is. -/
  infinite : u.erc20.allowance receiver this = MAX 256 →
    v.erc20.allowance receiver this = MAX 256

/-- The balances after a burn of the loan and the fee. -/
theorem held_of_burn {f g : Address → ℕ} {owed : ℕ} (hle : owed ≤ f receiver)
    (hg : g = Function.update f receiver (f receiver - owed)) (account : Address) :
    g account + (if account = receiver then owed else 0) = f account := by
  rw [hg]
  rcases eq_or_ne account receiver with rfl | hne
  · rw [Function.update_self, if_pos rfl]
    exact Nat.sub_add_cancel hle
  · rw [Function.update_of_ne hne, if_neg hne, Nat.add_zero]

/-- The balances after a burn of the loan and a transfer of the fee. -/
theorem held_of_burn_transfer {f g k : Address → ℕ} {loan fee : ℕ} {dst : Address}
    (hle : loan ≤ f receiver) (hg : g = Function.update f receiver (f receiver - loan))
    (hfee : fee ≤ g receiver) (hk : k = Tally.move g receiver dst fee) (account : Address) :
    k account + (if account = receiver then loan + fee else 0) =
      f account + if account = dst then fee else 0 := by
  have hburn := held_of_burn hle hg account
  rw [hk]
  rcases eq_or_ne receiver dst with rfl | hdst
  · rw [Tally.move_self hfee, ← hburn]
    split <;> omega
  · rcases eq_or_ne account receiver with rfl | hreceiver
    · rw [Tally.move_src hdst, if_pos rfl, if_neg hdst]
      rw [if_pos rfl] at hburn
      omega
    · rw [if_neg hreceiver] at hburn ⊢
      rcases eq_or_ne account dst with rfl | haccount
      · rw [Tally.move_dst hreceiver.symm, if_pos rfl]
        omega
      · rw [Tally.move_of_ne hreceiver haccount, if_neg haccount]
        omega

/-- What burning and paying does, once the allowance is spent. -/
theorem settle_eq_ok {F : Erc20FlashMint} {t erc20 : Erc20} {owed : U256} (hc : t.Conserved)
    (howed : owed.toNat = value.toNat + F.flashFeeValue.toNat)
    (h : (if F.flashFeeValue = 0 ∨ F.flashFeeReceiverAddress = 0 then t._burn receiver owed
      else do
        let t ← t._burn receiver value
        t._transfer receiver F.flashFeeReceiverAddress F.flashFeeValue) = .ok erc20) :
    erc20.Conserved ∧ (∀ o s, erc20.allowance o s = t.allowance o s) ∧
      erc20.totalSupply.toNat + value.toNat + F.burnedFee = t.totalSupply.toNat ∧
      value.toNat + F.flashFeeValue.toNat ≤ t.held receiver ∧
      ∀ account, erc20.held account +
          (if account = receiver then value.toNat + F.flashFeeValue.toNat else 0) =
        t.held account + F.receivedFee account := by
  split at h
  · rename_i hburns
    obtain ⟨-, hupdate⟩ := guard_eq_ok.mp h
    obtain ⟨hle, hheld⟩ := Erc20._burn_held h
    have hsupply := hc._burn_totalSupply h
    have hburned : F.burnedFee = F.flashFeeValue.toNat := by
      rw [burnedFee]
      rcases hburns with hfee | hreceiver
      · rw [hfee]
        exact ite_self _
      · rw [if_pos hreceiver]
    have hreceived (account : Address) : F.receivedFee account = 0 := by
      rw [receivedFee]
      rcases hburns with hfee | hreceiver
      · rw [hfee]
        exact ite_self _
      · rw [if_neg fun hcond => hcond.1 hreceiver]
    rw [howed] at hle hheld hsupply
    refine ⟨hc._burn h, Erc20._update_allowance hupdate, ?_, hle, fun account => ?_⟩
    · rw [hburned]
      omega
    · rw [hreceived, Nat.add_zero]
      exact held_of_burn hle hheld account
  · rename_i hpays
    obtain ⟨hfee, hreceiver⟩ := not_or.mp hpays
    obtain ⟨t₁, hburn, htransfer⟩ := bind_eq_ok.mp h
    obtain ⟨-, hupdate⟩ := guard_eq_ok.mp hburn
    obtain ⟨-, -, hupdate'⟩ := Erc20._transfer_eq_ok htransfer
    obtain ⟨hle, hheld⟩ := Erc20._burn_held hburn
    obtain ⟨hlefee, hheld'⟩ := (hc._burn hburn)._transfer_held htransfer
    have hsupply := hc._burn_totalSupply hburn
    have hburned : F.burnedFee = 0 := if_neg hreceiver
    have hreceived (account : Address) : F.receivedFee account =
        if account = F.flashFeeReceiverAddress then F.flashFeeValue.toNat else 0 := by
      simp only [receivedFee, ne_eq, hreceiver, not_false_eq_true, true_and]
    refine ⟨(hc._burn hburn)._update hupdate', fun o s => ?_, ?_, ?_, fun account => ?_⟩
    · rw [Erc20._update_allowance hupdate', Erc20._update_allowance hupdate]
    · rw [Erc20._transfer_totalSupply htransfer, hburned]
      exact hsupply
    · rw [hheld, Function.update_self] at hlefee
      omega
    · rw [hreceived]
      exact held_of_burn_transfer hle hheld hlefee hheld' account

/-- **What a successful second half does.** -/
theorem repay_eq_ok (hc : u.erc20.Conserved)
    (h : repay u this receiver value u.flashMint.flashFeeValue = .ok v) :
    Repaid this receiver value u v := by
  simp only [repay, bind_eq_ok, mapErr_eq_ok, pure_eq_ok, expect_eq_ok, checkedAdd_eq_some] at h
  obtain ⟨owed, howed, t, hspend, erc20, hburn, rfl⟩ := h
  have ht := Erc20._spendAllowance_eq_ok hspend
  obtain ⟨hle, hallowance⟩ := Erc20._spendAllowance_allowance hspend
  have htc : t.Conserved := by
    rw [ht]
    exact hc
  have htheld : t.held = u.erc20.held := by
    rw [ht]
    rfl
  have htsupply : t.totalSupply = u.erc20.totalSupply := by rw [ht]
  obtain ⟨hconserved, hsame, hsupply, howed_le, hheld⟩ := settle_eq_ok htc howed hburn
  refine ⟨rfl, hconserved, htsupply ▸ hsupply, htheld ▸ howed_le, htheld ▸ hheld, ?_, ?_⟩
  · intro hfinite
    have hcancel := BitVec.toNat_sub_add_cancel (BitVec.le_def.mp hle)
    rw [hsame, hallowance, if_pos ⟨⟨rfl, rfl⟩, hfinite⟩, ← howed]
    exact hcancel
  · intro hinfinite
    rw [hsame, hallowance, if_neg fun hcond => hcond.2 hinfinite, hinfinite]

/-! ### Loans

A loan is its mint, the run of the borrower, and its second half. `maxFlashLoan` is the distance to
the largest word, so a mint that it allows does not overflow. -/

/-- What a successful loan went through. -/
theorem flashLoan_eq_ok (h : flashLoan env s receiver token value data = .ok (answer, v)) :
    token = env.this ∧ value ≤ MAX 256 - s.erc20.totalSupply ∧
      ∃ erc20 u, s.erc20._mint receiver value = .ok erc20 ∧
        env.borrowers ⟨receiver, env.sender, token, value, s.flashMint.flashFeeValue, data⟩
          { s with erc20 } = .ok (BORROWER_CALLBACK_VALUE, u) ∧
        repay u env.this receiver value s.flashMint.flashFeeValue = .ok v := by
  simp only [flashLoan, gt_iff_lt, guard_eq_ok, bind_eq_ok, mapErr_eq_ok, not_lt] at h
  obtain ⟨hmax, fee, hfee, -, erc20, hmint, ⟨loanReturn, u⟩, hloan, h⟩ := h
  rw [flashFee, guard_not_eq_ok] at hfee
  obtain ⟨htoken, hfee⟩ := hfee
  cases hfee
  rw [maxFlashLoan, if_pos htoken] at hmax
  simp only [pure_eq_ok, ne_eq, not_not, Prod.mk.injEq] at h
  obtain ⟨hreturn, v', hrepay, -, rfl⟩ := h
  refine ⟨htoken, hmax, erc20, u, hmint, ?_, hrepay⟩
  rw [onFlashLoan] at hloan
  split at hloan
  · rename_i loan hborrower
    cases hloan
    rw [← hreturn]
    exact hborrower
  · simp at hloan

/-- **A loan that the maximum allows can be minted.** -/
theorem _mint_of_le_maxFlashLoan {erc20 : Erc20} (hreceiver : receiver ≠ 0)
    (hmax : value ≤ MAX 256 - erc20.totalSupply) :
    erc20.totalSupply.toNat + value.toNat < 2 ^ 256 ∧
      ∃ erc20', erc20._mint receiver value = .ok erc20' := by
  have hle : erc20.totalSupply ≤ MAX 256 := not_lt.mp BitVec.not_allOnes_lt
  have hroom : erc20.totalSupply.toNat + value.toNat < 2 ^ 256 := by
    have hvalue := BitVec.le_def.mp hmax
    have hsupply := erc20.totalSupply.isLt
    rw [BitVec.toNat_sub_of_le hle, BitVec.toNat_allOnes] at hvalue
    omega
  refine ⟨hroom, { erc20 with totalSupply := erc20.totalSupply + value }.credit receiver value, ?_⟩
  rw [Erc20._mint, if_neg hreceiver, Erc20._update, bind_eq_ok]
  refine ⟨_, ?_, rfl⟩
  rw [Erc20.debit, if_pos rfl, bind_eq_ok]
  exact ⟨_, addAssignChecked_eq_ok.mpr (BitVec.toNat_add_of_lt hroom), rfl⟩

/-- A loan keeps the fees as they are and the balances adding up to the supply, and takes the
burned fees off the supply, if what happens in it does. -/
theorem flashLoan_conserved {nested : ℕ} (hs : s.erc20.Conserved)
    (hborrower : ∀ erc20 b u, s.erc20._mint receiver value = .ok erc20 →
      env.borrowers ⟨receiver, env.sender, token, value, s.flashMint.flashFeeValue, data⟩
        { s with erc20 } = .ok (b, u) → erc20.Conserved → u.flashMint = s.flashMint ∧
          u.erc20.Conserved ∧
          u.erc20.totalSupply.toNat + nested = erc20.totalSupply.toNat)
    (h : flashLoan env s receiver token value data = .ok (answer, v)) :
    v.flashMint = s.flashMint ∧ v.erc20.Conserved ∧
      v.erc20.totalSupply.toNat + (nested + s.flashMint.burnedFee) =
        s.erc20.totalSupply.toNat := by
  obtain ⟨-, -, erc20, u, hmint, hloan, hrepay⟩ := flashLoan_eq_ok h
  obtain ⟨hflash, hu, hsupply⟩ := hborrower _ _ _ hmint hloan (hs._mint hmint)
  have hminted := Erc20._mint_totalSupply hmint
  rw [← hflash] at hrepay ⊢
  have hrepaid := repay_eq_ok hu hrepay
  have hfell := hrepaid.supply
  refine ⟨hrepaid.flashMint, hrepaid.conserved, ?_⟩
  omega

/-- **What calls keep**: the fees, the balances adding up to the supply, and the supply but for
the fees that are burned. -/
theorem Run.conserved {fees : ℕ} (h : Run this s fees v) (hs : s.erc20.Conserved) :
    v.flashMint = s.flashMint ∧ v.erc20.Conserved ∧
      v.erc20.totalSupply.toNat + fees = s.erc20.totalSupply.toNat := by
  induction h with
  | refl s => exact ⟨rfl, hs, rfl⟩
  | call _ hexec ih =>
    obtain ⟨hflash, hc, hsupply⟩ := ih hs
    refine ⟨hflash, (hc.exec hexec).1, ?_⟩
    rw [Erc20.exec_totalSupply hexec]
    exact hsupply
  | flashLoan _ _ _ hexec ih ihborrower =>
    obtain ⟨hflash, hc, hsupply⟩ := ih hs
    obtain ⟨hflash', hc', hsupply'⟩ := flashLoan_conserved hc
      (fun erc20 b u hmint hloan hminted => ihborrower erc20 b u hmint hloan hminted) hexec
    refine ⟨hflash'.trans hflash, hc', ?_⟩
    omega

/-- **What a loan leaves behind.** The borrower may call the token in any way before it answers,
which includes taking further loans. A loan up to the maximum can be minted without the supply
overflowing. When the loan succeeds, the balances add up to the supply again, and the supply is what
it was but for the fees of the loans that burn them. After the borrower has answered, in the state
`u`, the loan and the fee are taken from it and from its allowance to the lender, and the fee is
given to its receiver. -/
theorem flashLoan_exact {nested : ℕ} (hs : s.erc20.Conserved)
    (hborrower : ∀ erc20 b u, s.erc20._mint receiver value = .ok erc20 →
      env.borrowers ⟨receiver, env.sender, token, value, s.flashMint.flashFeeValue, data⟩
        { s with erc20 } = .ok (b, u) → Run env.this { s with erc20 } nested u)
    (h : flashLoan env s receiver token value data = .ok (answer, v)) :
    s.erc20.totalSupply.toNat + value.toNat < 2 ^ 256 ∧
      v.erc20.Conserved ∧
      v.erc20.totalSupply.toNat + (nested + s.flashMint.burnedFee) =
        s.erc20.totalSupply.toNat ∧
      ∃ erc20 u, s.erc20._mint receiver value = .ok erc20 ∧
        env.borrowers ⟨receiver, env.sender, token, value, s.flashMint.flashFeeValue, data⟩
          { s with erc20 } = .ok (BORROWER_CALLBACK_VALUE, u) ∧
        u.flashMint = s.flashMint ∧ Repaid env.this receiver value u v := by
  obtain ⟨-, hmax, erc20, u, hmint, hloan, hrepay⟩ := flashLoan_eq_ok h
  obtain ⟨hreceiver, -⟩ := guard_eq_ok.mp hmint
  obtain ⟨hroom, -⟩ := _mint_of_le_maxFlashLoan hreceiver hmax
  have hrun := hborrower _ _ _ hmint hloan
  obtain ⟨hflash, hu, -⟩ := hrun.conserved (hs._mint hmint)
  obtain ⟨-, hc, hsupply⟩ := flashLoan_conserved hs
    (fun _ _ _ hmint hloan hminted => (hborrower _ _ _ hmint hloan).conserved hminted) h
  rw [← hflash] at hrepay
  exact ⟨hroom, hc, hsupply, erc20, u, hmint, hloan, hflash, repay_eq_ok hu hrepay⟩

/-- A borrower that approves the lender for what it owes. -/
def approving (lender : Address) : Reentrant.Callback LoanCall FlashToken B256 CallError :=
  fun a self => match self.erc20.exec a.receiver (.approve lender (a.amount + a.fee)) with
    | .ok (_, erc20) => .ok (BORROWER_CALLBACK_VALUE, { self with erc20 })
    | .error _ => .error (.Revert [])

theorem run_of_approving {a : LoanCall} {b : B256} (h : approving this a u = .ok (b, v)) :
    Run this u 0 v := by
  dsimp only [approving] at h
  split at h
  · rename_i hexec
    cases h
    exact (Run.refl u).call hexec
  · simp at h

/-- Account `7` has 10, borrows 100, and owes a fee of 3 that nobody receives. -/
theorem flashLoan_exact_burned : ∃ s : FlashToken, ∃ v, s.erc20.Conserved ∧
    flashLoan ⟨1, 9, fun _ => true, approving 9⟩ s 7 9 100 [] = .ok (true, v) ∧
    v.erc20.totalSupply.toNat + 3 = s.erc20.totalSupply.toNat := by
  have hlook : (do
      let erc20 ← (Erc20.empty._mint 7 10).mapErr Error.ofErc20
      let (answer, v) ←
        flashLoan ⟨1, 9, fun _ => true, approving 9⟩ ⟨⟨3, 0⟩, erc20⟩ 7 9 100 []
      pure (answer, v.erc20.totalSupply)).toOption = some (true, 7) := by decide +kernel
  simp only [Except.toOption_eq_some, bind_eq_ok, mapErr_eq_ok, pure_eq_ok] at hlook
  obtain ⟨erc20, hmint, ⟨answer, v⟩, hloan, hanswer⟩ := hlook
  obtain ⟨rfl, -⟩ := Prod.mk.inj hanswer
  have hs := Erc20.conserved_empty._mint hmint
  refine ⟨_, v, hs, hloan, ?_⟩
  have hborrower (t : Erc20) (b : B256) (u : FlashToken) :
      approving 9 ⟨7, 1, 9, 100, 3, []⟩ ⟨⟨3, 0⟩, t⟩ = .ok (b, u) → Run 9 ⟨⟨3, 0⟩, t⟩ 0 u :=
    run_of_approving
  obtain ⟨-, -, hsupply, -⟩ := flashLoan_exact hs (fun t b u _ => hborrower t b u) hloan
  exact hsupply

end Erc20FlashMint

end ContractsStylus
