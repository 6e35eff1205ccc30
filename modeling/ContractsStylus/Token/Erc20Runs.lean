import ContractsStylus.Library.Runs
import ContractsStylus.Token.Erc20

/-!
# Runs of an ERC-20 token

What holds of a token after any number of calls. Two totals are kept: that of the balances, which
is the supply, and that of an allowance and of what was spent from it, which is what was approved.

## Accounting for allowances

An approval replaces an allowance and does not add to it, so what was spent in a run is compared
with what was set, one approval at a time: between two approvals, what is spent and what is left add
up to what was approved. An infinite allowance is not spent down and is not part of such an
equation.

Operations here are calls by anybody and the functions that contracts which extend the token can use
without a check of the caller. A result about these covers every such contract.

## Main definitions

* `Erc20.Op`, `Erc20.Tx`, `Erc20.machine` — the calls, and the functions for contracts that extend
  the token
* `Erc20.spent` — what a spender has taken from an owner in a run

## Main results

* `Erc20.totalSupply_eq_sum` — the balances add up to the supply, so nothing wraps
* `Erc20.spent_add_allowance` — an allowance and what was spent from it add up to what was approved
* `Erc20.allowance_bound` — that, and whose calls change allowances and lower balances
-/

namespace ContractsStylus

namespace Erc20

/-- The calls, and the functions that an extension may call. -/
inductive Op
  | call (c : Call)
  | _mint (account : Address) (value : U256)
  | _burn (account : Address) (value : U256)
  | _update (src dst : Address) (value : U256)
  deriving DecidableEq

/-- An operation with its sender. -/
structure Tx where
  sender : Address
  op : Op
  deriving DecidableEq

/-- One operation. -/
def execTx (self : Erc20) (tx : Tx) : Result Error Erc20 :=
  match tx.op with
  | .call c => Prod.snd <$> self.exec tx.sender c
  | ._mint account value => self._mint account value
  | ._burn account value => self._burn account value
  | ._update src dst value => self._update src dst value

/-- The token as a machine. -/
def machine : Machine Erc20 Tx (Revert Error) := ⟨execTx⟩

/-- The states that successful operations lead to, from deployment on. -/
abbrev Reachable : Erc20 → Prop := machine.Reachable (fun _ _ => True) empty

variable {self self' s t : Erc20} {owner spender account src dst : Address} {value v : U256}
  {tx : Tx} {c : Call}

/-! ### The supply -/

theorem Conserved.execTx (hc : self.Conserved) (h : self.execTx tx = .ok self') :
    self'.Conserved := by
  rcases tx with ⟨sender, op⟩
  cases op with
  | call c =>
    obtain ⟨answer, h⟩ := snd_map_eq_ok.mp h
    exact (hc.exec h).1
  | _mint account value => exact hc._mint h
  | _burn account value => exact hc._burn h
  | _update src dst value => exact hc._update h

theorem Reachable.conserved (h : Reachable self) : self.Conserved :=
  h.invariant conserved_empty fun _ _ _ hc _ hexec => hc.execTx hexec

/-- What `_update` does without a check stays in range. -/
theorem Conserved.update_in_range (hc : self.Conserved) (h : self.debit src value = .ok t) :
    (src ≠ 0 → value.toNat ≤ self.held src) ∧
      (dst = 0 → value.toNat ≤ t.totalSupply.toNat) ∧
      (dst ≠ 0 → t.held dst + value.toNat < 2 ^ 256) := by
  have hle := (hc.debit h).le_totalSupply dst
  refine ⟨fun hsrc => (debit_eq_ok hsrc h).1, fun _ => ?_, fun _ => ?_⟩
  · exact (Nat.le_add_left ..).trans hle
  · exact hle.trans_lt t.totalSupply.isLt

/-- **The balances add up to the supply**, in every state reached by any operations, and neither
the subtraction from the sender nor the one from the supply nor the addition to the recipient
wraps in any `_update` there. An update that belongs to `transfer_from` finds other allowances. -/
theorem totalSupply_eq_sum (h : Reachable self) :
    ∑ a, (self.balanceOf a).toNat = self.totalSupply.toNat ∧
      (∀ a, self.balanceOf a ≤ self.totalSupply) ∧
      ∀ allowances src dst value t, { self with allowances }.debit src value = .ok t →
        (src ≠ 0 → value ≤ self.balanceOf src) ∧
          (dst = 0 → value ≤ t.totalSupply) ∧
          (dst ≠ 0 → (t.balanceOf dst).toNat + value.toNat < 2 ^ 256) := by
  have hc := h.conserved
  refine ⟨hc, fun a => ?_, fun allowances src dst value t ht => ?_⟩
  · rw [BitVec.le_def, ← (hc : _ = _)]
    exact Tally.le_sum self.held a
  · have hallowances : Conserved { self with allowances } := hc
    simp only [BitVec.le_def]
    exact hallowances.update_in_range ht

/-- Account `1` is given 100, of which it sends 30 to account `2`, which burns 10. -/
theorem totalSupply_eq_sum_burn : ∃ s : Erc20, (s.balanceOf 1, s.balanceOf 2) = (70, 20) ∧
    ∑ a, (s.balanceOf a).toNat = 90 := by
  obtain ⟨s, hs, hlook⟩ := machine.exists_reachable (P := fun _ _ => True) empty
    [⟨0, ._mint 1 100⟩, ⟨1, .call (.transfer 2 30)⟩, ⟨0, ._burn 2 10⟩]
    (fun s => ((s.balanceOf 1, s.balanceOf 2), s.totalSupply)) ((70, 20), 90)
    (fun _ _ _ => trivial) (by decide +kernel)
  obtain ⟨hbalances, hsupply⟩ := Prod.mk.inj hlook
  obtain ⟨hsum, -⟩ := totalSupply_eq_sum hs
  rw [hsupply] at hsum
  exact ⟨s, hbalances, hsum⟩

/-! ### Allowances -/

/-- `owner` approves `spender`. -/
def Tx.Approves (owner spender : Address) (tx : Tx) : Prop :=
  ∃ value, tx = ⟨owner, .call (.approve spender value)⟩

/-- What `spender` asks for from `owner`. -/
def Tx.taken (owner spender : Address) (tx : Tx) : ℕ :=
  match tx.op with
  | .call (.transferFrom src _ value) =>
    if tx.sender = spender ∧ src = owner then value.toNat else 0
  | _ => 0

theorem taken_transferFrom : Tx.taken owner spender
    ⟨spender, .call (.transferFrom owner dst value)⟩ = value.toNat :=
  if_pos ⟨rfl, rfl⟩

/-- **What an operation does to an allowance**: it is an approval, or it spends from the allowance,
or it has nothing to do with it. -/
theorem allowance_cases (h : self.execTx tx = .ok self') (owner spender : Address) :
    tx.Approves owner spender ∨
    (∃ dst value, tx = ⟨spender, .call (.transferFrom owner dst value)⟩ ∧
      value ≤ self.allowance owner spender ∧
      self'.allowance owner spender = if self.allowance owner spender ≠ MAX 256 then
        self.allowance owner spender - value else self.allowance owner spender) ∨
    (tx.taken owner spender = 0 ∧
      self'.allowance owner spender = self.allowance owner spender) := by
  rcases tx with ⟨sender, op⟩
  cases op with
  | call c =>
    obtain ⟨answer, h⟩ := snd_map_eq_ok.mp h
    cases c with
    | transfer dst value =>
      obtain ⟨s, hs, h⟩ := bind_eq_ok.mp h
      cases pure_eq_ok.mp h
      exact Or.inr (Or.inr ⟨rfl, _update_allowance (_transfer_eq_ok hs).2.2 ..⟩)
    | approve s value =>
      have hallowance := _approve_eq_ok h owner spender
      by_cases heq : owner = sender ∧ spender = s
      · obtain ⟨rfl, rfl⟩ := heq
        exact Or.inl ⟨value, rfl⟩
      · rw [if_neg heq] at hallowance
        exact Or.inr (Or.inr ⟨rfl, hallowance⟩)
    | transferFrom src dst value =>
      obtain ⟨t, ht, h⟩ := bind_eq_ok.mp h
      obtain ⟨s, hs, h⟩ := bind_eq_ok.mp h
      cases pure_eq_ok.mp h
      obtain ⟨hle, hallowance⟩ := _spendAllowance_allowance ht
      rw [_update_allowance (_transfer_eq_ok hs).2.2, hallowance]
      by_cases heq : owner = src ∧ spender = sender
      · obtain ⟨rfl, rfl⟩ := heq
        simp only [true_and]
        exact Or.inr (Or.inl ⟨dst, value, rfl, hle, rfl⟩)
      · rw [if_neg fun hcond => heq hcond.1]
        exact Or.inr (Or.inr ⟨if_neg fun hcond => heq ⟨hcond.2.symm, hcond.1.symm⟩, rfl⟩)
  | _mint account value =>
    obtain ⟨-, h⟩ := guard_eq_ok.mp h
    exact Or.inr (Or.inr ⟨rfl, _update_allowance h ..⟩)
  | _burn account value =>
    obtain ⟨-, h⟩ := guard_eq_ok.mp h
    exact Or.inr (Or.inr ⟨rfl, _update_allowance h ..⟩)
  | _update src dst value =>
    exact Or.inr (Or.inr ⟨rfl, _update_allowance h ..⟩)

/-- What `spender` has taken from `owner` in a run; what was refused was not taken. -/
def spent (owner spender : Address) : Erc20 → List Tx → ℕ
  | _, [] => 0
  | self, tx :: txs =>
    (match self.execTx tx with
      | .ok _ => tx.taken owner spender
      | .error _ => 0) + spent owner spender (machine.step self tx) txs

/-- One operation takes from a finite allowance what it spends. -/
theorem taken_add_allowance (h : self.execTx tx = .ok self')
    (hfinite : self.allowance owner spender ≠ MAX 256) (htx : ¬tx.Approves owner spender) :
    tx.taken owner spender + (self'.allowance owner spender).toNat =
      (self.allowance owner spender).toNat := by
  rcases allowance_cases h owner spender with happrove | ⟨dst, value, rfl, hle, heq⟩ | ⟨htaken, heq⟩
  · exact absurd happrove htx
  · have hcancel := BitVec.toNat_sub_add_cancel (BitVec.le_def.mp hle)
    rw [heq, if_pos hfinite, taken_transferFrom]
    omega
  · rw [htaken, heq, Nat.zero_add]

/-- **A finite allowance and what was spent from it** add up to the same as long as the owner does
not approve the spender again. -/
theorem spent_add_allowance {txs : List Tx} (htxs : ∀ tx ∈ txs, ¬tx.Approves owner spender) :
    ∀ {self : Erc20}, self.allowance owner spender ≠ MAX 256 →
      spent owner spender self txs + ((machine.run self txs).allowance owner spender).toNat =
        (self.allowance owner spender).toNat := by
  induction txs with
  | nil => exact fun _ => Nat.zero_add _
  | cons tx txs ih =>
    intro self hfinite
    have hrest := @ih fun tx htx => htxs tx (List.mem_cons_of_mem _ htx)
    rw [spent, Machine.run_cons]
    cases hexec : self.execTx tx with
    | error e =>
      rw [Machine.step_of_error (M := machine) hexec, Nat.zero_add]
      exact hrest hfinite
    | ok self' =>
      have htaken := taken_add_allowance hexec hfinite (htxs tx (List.mem_cons_self ..))
      have hfinite' : self'.allowance owner spender ≠ MAX 256 := by
        intro heq
        refine hfinite (le_antisymm (not_lt.mp BitVec.not_allOnes_lt) (BitVec.le_def.mpr ?_))
        rw [← heq]
        omega
      rw [Machine.step_of_ok (M := machine) hexec, Nat.add_assoc, hrest hfinite', htaken]

/-- An infinite allowance is not changed by spending from it. -/
theorem allowance_of_transferFrom {sender : Address}
    (h : self.execTx ⟨sender, .call (.transferFrom src dst value)⟩ = .ok self')
    (hinfinite : self.allowance owner spender = MAX 256) :
    self'.allowance owner spender = MAX 256 := by
  rcases allowance_cases h owner spender with ⟨v, hv⟩ | ⟨_, _, -, -, heq⟩ | ⟨-, heq⟩
  · simp at hv
  · rw [heq, if_neg (not_not.mpr hinfinite), hinfinite]
  · rw [heq, hinfinite]

/-- A balance falls in a transfer by its owner, or in one that an allowance covers. -/
theorem Conserved.payer_of_lt {sender : Address} (hc : self.Conserved)
    (h : self.execTx ⟨sender, .call c⟩ = .ok self')
    (hlt : self'.balanceOf owner < self.balanceOf owner) :
    (∃ dst value, sender = owner ∧ c = .transfer dst value) ∨
      ∃ dst value, c = .transferFrom owner dst value ∧ value ≤ self.allowance owner sender := by
  obtain ⟨answer, h⟩ := snd_map_eq_ok.mp h
  obtain ⟨-, hmoves⟩ := hc.exec h
  have hpayer : owner = c.payer sender := by
    by_contra hne
    exact not_le.mpr (BitVec.lt_def.mp hlt) (hmoves.le_of_ne hne)
  cases c with
  | transfer dst value => exact Or.inl ⟨dst, value, hpayer.symm, rfl⟩
  | approve s value =>
    have hheld : self'.held = self.held := hmoves
    exact absurd (congrFun hheld owner) (BitVec.lt_def.mp hlt).ne
  | transferFrom src dst value =>
    obtain rfl : owner = src := hpayer
    obtain ⟨t, ht, -⟩ := bind_eq_ok.mp h
    exact Or.inr ⟨dst, value, rfl, (_spendAllowance_allowance ht).1⟩

/-- **An allowance bounds what is spent.** In every state that is reached: if the owner approves
the spender for a finite value, then after any further operations, among which no approval of the
spender by the owner, what the spender has taken and the allowance that is left add up to the
value. An infinite allowance is not changed by `transfer_from`. An allowance is changed by
approvals of the owner and transfers of the spender only. A balance falls by a transfer of its
owner or one that the allowance of the caller covers only. -/
theorem allowance_bound (hs : Reachable s) :
    (∀ owner spender v s₁ txs, v ≠ MAX 256 →
      s.execTx ⟨owner, .call (.approve spender v)⟩ = .ok s₁ →
      (∀ tx ∈ txs, ¬tx.Approves owner spender) →
      spent owner spender s₁ txs + ((machine.run s₁ txs).allowance owner spender).toNat =
        v.toNat) ∧
    (∀ sender src dst value owner spender, s.allowance owner spender = MAX 256 →
      (machine.step s ⟨sender, .call (.transferFrom src dst value)⟩).allowance owner spender =
        MAX 256) ∧
    (∀ tx owner spender,
      (machine.step s tx).allowance owner spender ≠ s.allowance owner spender →
      (∃ value, tx = ⟨owner, .call (.approve spender value)⟩) ∨
        ∃ dst value, tx = ⟨spender, .call (.transferFrom owner dst value)⟩) ∧
    ∀ sender c owner, (machine.step s ⟨sender, .call c⟩).balanceOf owner < s.balanceOf owner →
      (∃ dst value, sender = owner ∧ c = .transfer dst value) ∨
        ∃ dst value, c = .transferFrom owner dst value ∧ value ≤ s.allowance owner sender := by
  refine ⟨?_, ?_, ?_, ?_⟩
  · intro owner spender v s₁ txs hv happrove htxs
    obtain ⟨answer, happrove⟩ := snd_map_eq_ok.mp happrove
    have hallowance : s₁.allowance owner spender = v :=
      (_approve_eq_ok happrove owner spender).trans (if_pos ⟨rfl, rfl⟩)
    rw [spent_add_allowance htxs (hallowance ▸ hv), hallowance]
  · intro sender src dst value owner spender hinfinite
    rcases machine.step_cases s ⟨sender, .call (.transferFrom src dst value)⟩ with
      ⟨s', hexec, hstep⟩ | hstep
    · rw [hstep]
      exact allowance_of_transferFrom hexec hinfinite
    · rw [hstep, hinfinite]
  · intro tx owner spender hne
    rcases machine.step_cases s tx with ⟨s', hexec, hstep⟩ | hstep
    · rw [hstep] at hne
      rcases allowance_cases hexec owner spender with h | ⟨dst, value, htx, -⟩ | ⟨-, heq⟩
      · exact Or.inl h
      · exact Or.inr ⟨dst, value, htx⟩
      · exact absurd heq hne
    · exact absurd (by rw [hstep]) hne
  · intro sender c owner hlt
    rcases machine.step_cases s ⟨sender, .call c⟩ with ⟨s', hexec, hstep⟩ | hstep
    · rw [hstep] at hlt
      exact hs.conserved.payer_of_lt hexec hlt
    · rw [hstep] at hlt
      exact absurd hlt (lt_irrefl _)

/-- Account `1` has 100 and approves account `2` for 50, of which the latter takes 20. -/
theorem allowance_bound_two : ∃ s s₁, Reachable s ∧
    s.execTx ⟨1, .call (.approve 2 50)⟩ = .ok s₁ ∧
    spent 1 2 s₁ [⟨2, .call (.transferFrom 1 3 20)⟩, ⟨2, .call (.transferFrom 1 3 40)⟩] = 20 ∧
    20 + ((machine.run s₁ [⟨2, .call (.transferFrom 1 3 20)⟩,
      ⟨2, .call (.transferFrom 1 3 40)⟩]).allowance 1 2).toNat = 50 := by
  obtain ⟨s, hs, hlook⟩ := machine.exists_reachable (P := fun _ _ => True) empty
    [⟨0, ._mint 1 100⟩]
    (fun s => (do
      let s₁ ← s.execTx ⟨1, .call (.approve 2 50)⟩
      pure (spent 1 2 s₁ [⟨2, .call (.transferFrom 1 3 20)⟩,
        ⟨2, .call (.transferFrom 1 3 40)⟩]) : Result Error ℕ).toOption)
    (some 20) (fun _ _ _ => trivial) (by decide +kernel)
  simp only [Except.toOption_eq_some, bind_eq_ok, pure_eq_ok] at hlook
  obtain ⟨s₁, happrove, hspent⟩ := hlook
  refine ⟨s, s₁, hs, happrove, hspent, ?_⟩
  obtain ⟨haccount, -⟩ := allowance_bound hs
  rw [← hspent]
  refine haccount 1 2 50 s₁ _ (by decide) happrove fun tx htx => ?_
  rintro ⟨value, rfl⟩
  simp at htx

end Erc20

end ContractsStylus
