import ContractsStylus.Token.Erc6909

/-!
# Erc6909TokenSupply

The extension of ERC-6909 that keeps the total supply of every id. It has its own entry points for
whatever changes balances, and a supply that moves after the balances do.

## Order of writes

The extension moves the balances first, by the function of the plain token, and then the supply, up
with a check on a mint and down without one on a burn. An addition to the supply can overflow only
after the balances were updated; the call panics then and nothing of it stays.

That is also the only difference that the extension makes. `supply_exact` runs the same operations
on both contracts and finds the same balances and answers, until a mint overflows a supply.

## Main definitions

* `Erc6909TokenSupply` — the token, and the supplies
* `Erc6909TokenSupply.Op`, `Erc6909TokenSupply.exec`, `Erc6909TokenSupply.execBase` — the
  operations, and the same of the plain token
* `Erc6909TokenSupply.Conserved` — the balances of every id add up to its supply

## Main results

* `Erc6909TokenSupply.Conserved._update` — an update keeps them adding up, and does what that of
  the plain token does
* `Erc6909TokenSupply.supply_exact` — supplies are exact, and the plain token is refined
-/

namespace ContractsStylus

/-- State of an `Erc6909TokenSupply` contract. -/
structure Erc6909TokenSupply where
  erc6909 : Erc6909
  /-- Id to its total supply. -/
  totalSupplies : StorageMap U256 U256

namespace Erc6909TokenSupply

open Erc6909 (Error)

/-- The contract after deployment. -/
def empty : Erc6909TokenSupply := ⟨Erc6909.empty, fun _ => 0⟩

def totalSupply (self : Erc6909TokenSupply) (id : U256) : U256 := self.totalSupplies id

/-- `self.total_supplies.setter(id).set(supply)`. -/
def setSupply (self : Erc6909TokenSupply) (id supply : U256) : Erc6909TokenSupply :=
  { self with totalSupplies := Function.update self.totalSupplies id supply }

/-- What `_update` does for a zero `src`. -/
def addSupply (self : Erc6909TokenSupply) (src : Address) (id amount : U256) :
    Result Error Erc6909TokenSupply :=
  if src = 0 then do
    let supply ← addAssignChecked (self.totalSupplies id) amount
      "should not exceed `U256::MAX` for `total_supplies`"
    pure (self.setSupply id supply)
  else .ok self

/-- What `_update` does for a zero `dst`. -/
def subSupply (self : Erc6909TokenSupply) (dst : Address) (id amount : U256) :
    Erc6909TokenSupply :=
  if dst = 0 then self.setSupply id (self.totalSupplies id - amount) else self

def _update (self : Erc6909TokenSupply) (src dst : Address) (id amount : U256) :
    Result Error Erc6909TokenSupply := do
  let erc6909 ← self.erc6909._update src dst id amount
  let self ← { self with erc6909 }.addSupply src id amount
  pure (self.subSupply dst id amount)

def _mint (self : Erc6909TokenSupply) (dst : Address) (id amount : U256) :
    Result Error Erc6909TokenSupply :=
  if dst = 0 then .err (.InvalidReceiver 0) else self._update 0 dst id amount

def _burn (self : Erc6909TokenSupply) (src : Address) (id amount : U256) :
    Result Error Erc6909TokenSupply :=
  if src = 0 then .err (.InvalidSender 0) else self._update src 0 id amount

def _transfer (self : Erc6909TokenSupply) (src dst : Address) (id amount : U256) :
    Result Error Erc6909TokenSupply :=
  if src = 0 then .err (.InvalidSender 0)
  else if dst = 0 then .err (.InvalidReceiver 0)
  else self._update src dst id amount

/-! ### The interface

Transfers go through the update of the extension too, for which both sides are accounts, so the
supply stays. -/

def approve (self : Erc6909TokenSupply) (sender spender : Address) (id amount : U256) :
    Result Error (Bool × Erc6909TokenSupply) := do
  let answer ← self.erc6909.approve sender spender id amount
  pure (answer.1, { self with erc6909 := answer.2 })

def setOperator (self : Erc6909TokenSupply) (sender spender : Address) (approved : Bool) :
    Result Error (Bool × Erc6909TokenSupply) := do
  let answer ← self.erc6909.setOperator sender spender approved
  pure (answer.1, { self with erc6909 := answer.2 })

def transfer (self : Erc6909TokenSupply) (sender receiver : Address) (id amount : U256) :
    Result Error (Bool × Erc6909TokenSupply) := do
  let self ← self._transfer sender receiver id amount
  pure (true, self)

/-- `transfer_from` by `caller`; its argument `sender` is `src` here. -/
def transferFrom (self : Erc6909TokenSupply) (caller src receiver : Address) (id amount : U256) :
    Result Error (Bool × Erc6909TokenSupply) := do
  let erc6909 ← (if src ≠ caller ∧ ¬self.erc6909.isOperator src caller then
      self.erc6909._spendAllowance src caller id amount
    else .ok self.erc6909)
  let self ← { self with erc6909 }._transfer src receiver id amount
  pure (true, self)

/-- The calls of the interface, and the functions for contracts that extend the token. -/
inductive Op
  | call (tx : Erc6909.Tx)
  | _mint (dst : Address) (id amount : U256)
  | _burn (src : Address) (id amount : U256)
  deriving DecidableEq

def exec (self : Erc6909TokenSupply) : Op → Result Error Erc6909TokenSupply
  | .call ⟨caller, .approve spender id amount⟩ =>
    Prod.snd <$> self.approve caller spender id amount
  | .call ⟨caller, .setOperator spender approved⟩ =>
    Prod.snd <$> self.setOperator caller spender approved
  | .call ⟨caller, .transfer receiver id amount⟩ =>
    Prod.snd <$> self.transfer caller receiver id amount
  | .call ⟨caller, .transferFrom src receiver id amount⟩ =>
    Prod.snd <$> self.transferFrom caller src receiver id amount
  | ._mint dst id amount => self._mint dst id amount
  | ._burn src id amount => self._burn src id amount

/-- The same operation of the plain token. -/
def execBase (base : Erc6909) : Op → Result Error Erc6909
  | .call tx => Prod.snd <$> base.exec tx
  | ._mint dst id amount => base._mint dst id amount
  | ._burn src id amount => base._burn src id amount

/-- The contract as a machine. -/
def machine : Machine Erc6909TokenSupply Op (Revert Error) := ⟨exec⟩

/-- The states that successful operations lead to, from deployment on. -/
abbrev Reachable : Erc6909TokenSupply → Prop := machine.Reachable (fun _ _ => True) empty

/-- A mint for which there is no room in the supply. -/
def Op.Overflows (self : Erc6909TokenSupply) : Op → Prop
  | ._mint dst id amount => dst ≠ 0 ∧ 2 ^ 256 ≤ (self.totalSupply id).toNat + amount.toNat
  | _ => False

/-! ### Supplies

`Extends` relates the extension to the plain token and is what the two machines keep. An update is
the only function that the extension has changed, so the other operations follow from that. -/

/-- The balances of every id add up to its supply. -/
def Conserved (self : Erc6909TokenSupply) : Prop :=
  ∀ id, ∑ a, self.erc6909.held id a = (self.totalSupply id).toNat

variable {self s s' : Erc6909TokenSupply} {src dst caller : Address} {op : Op}

theorem conserved_empty : empty.Conserved := fun id => by
  simp [Erc6909.held, empty, Erc6909.empty, totalSupply]

theorem totalSupply_setSupply (self : Erc6909TokenSupply) (i supply j : U256) :
    (self.setSupply i supply).totalSupply j = if j = i then supply else self.totalSupply j :=
  Function.update_apply ..

/-- The token with the balances, allowances and operators of the plain one, and right supplies. -/
def Extends (self : Erc6909TokenSupply) (base : Erc6909) : Prop :=
  self.erc6909 = base ∧ self.Conserved

/-- Supplies that changed as the balances did. -/
theorem Conserved.of_update (hc : self.Conserved) {i : U256} {n m : ℕ}
    (hother : ∀ j, j ≠ i → s.erc6909.held j = self.erc6909.held j)
    (hsum : ∑ a, s.erc6909.held i a + n = ∑ a, self.erc6909.held i a + m)
    (hsupply : (s.totalSupply i).toNat + n = (self.totalSupply i).toNat + m)
    (hsame : ∀ j, j ≠ i → s.totalSupply j = self.totalSupply j) : s.Conserved := by
  intro j
  rcases eq_or_ne j i with rfl | hne
  · have hcj := hc j
    omega
  · rw [hother j hne, hsame j hne]
    exact hc j

/-- **An update does what that of the plain token does**, and keeps the supplies right, as long as a
mint leaves the supply a word. -/
theorem Conserved._update (hc : self.Conserved) (src dst : Address) (i amount : U256)
    (hroom : src = 0 → dst ≠ 0 ∧ (self.totalSupply i).toNat + amount.toNat < 2 ^ 256) :
    Matches id Extends (self._update src dst i amount) (self.erc6909._update src dst i amount) := by
  rw [Erc6909TokenSupply._update]
  cases hb : self.erc6909._update src dst i amount with
  | error e => exact .error e
  | ok b =>
    obtain ⟨hle, -, hother, hsum⟩ := Erc6909._update_eq_ok hb
    have hci := hc i
    rw [ok_bind, addSupply]
    by_cases hsrc : src = 0
    · obtain ⟨hdst, hroom⟩ := hroom hsrc
      rw [if_neg hdst, if_pos hsrc] at hsum
      have hsupply : (self.totalSupply i + amount).toNat =
          (self.totalSupply i).toNat + amount.toNat := BitVec.toNat_add_of_lt hroom
      have hadd : checkedAdd (self.totalSupplies i) amount = some (self.totalSupply i + amount) :=
        checkedAdd_eq_some.mpr hsupply
      rw [if_pos hsrc, addAssignChecked, hadd, expect, ok_bind]
      refine .ok ⟨?_, ?_⟩
      · rw [subSupply, if_neg hdst]
        rfl
      · rw [subSupply, if_neg hdst]
        refine hc.of_update hother hsum ?_ fun j hj => ?_
        · rw [totalSupply_setSupply, if_pos rfl, hsupply, Nat.add_zero]
        · exact (totalSupply_setSupply ..).trans (if_neg hj)
    · rw [if_neg hsrc, ok_bind]
      rw [if_neg hsrc] at hsum
      refine .ok ⟨?_, ?_⟩
      · rw [subSupply]
        split <;> rfl
      · rw [subSupply]
        by_cases hdst : dst = 0
        · rw [if_pos hdst] at hsum
          have hle : amount.toNat ≤ (self.totalSupply i).toNat := by omega
          rw [if_pos hdst]
          refine hc.of_update hother hsum ?_ fun j hj => ?_
          · rw [totalSupply_setSupply, if_pos rfl, Nat.add_zero]
            exact BitVec.toNat_sub_add_cancel hle
          · exact (totalSupply_setSupply ..).trans (if_neg hj)
        · rw [if_neg hdst] at hsum ⊢
          exact hc.of_update hother hsum rfl fun _ _ => rfl

/-- A mint fails by a panic only. -/
theorem noErr_update (self : Erc6909TokenSupply) (dst : Address) (i amount : U256) :
    Result.NoErr (self._update 0 dst i amount) := by
  refine .bind (.bind (.of_ok _) fun t => ?_) fun b => .bind (.bind (.expect _ _) fun _ => .of_ok _)
    fun _ => .of_ok _
  rw [Erc6909.credit]
  split
  · exact .bind (.expect _ _) fun _ => .of_ok _
  · exact .of_ok _

/-- **A mint without room in the supply panics.** -/
theorem exec_of_overflows (h : op.Overflows self) : ∃ msg, self.exec op = .panic msg := by
  cases op with
  | call tx => exact absurd h id
  | _burn src i amount => exact absurd h id
  | _mint dst i amount =>
    obtain ⟨hdst, hlarge⟩ := h
    have hexec : self.exec (._mint dst i amount) = self._update 0 dst i amount := if_neg hdst
    rw [hexec]
    refine (noErr_update self dst i amount).ok_or_panic.resolve_left ?_
    rintro ⟨s, hs⟩
    obtain ⟨b, -, hs⟩ := bind_eq_ok.mp hs
    obtain ⟨t, ht, -⟩ := bind_eq_ok.mp hs
    rw [addSupply, if_pos rfl] at ht
    obtain ⟨supply, hsupply, -⟩ := bind_eq_ok.mp ht
    have hsupply := addAssignChecked_eq_ok.mp hsupply
    have hlt := supply.isLt
    rw [totalSupply] at hlarge
    dsimp only at hsupply
    omega

/-- What leaves the balances alone leaves the supplies right. -/
theorem Conserved.of_held (hc : self.Conserved) {b : Erc6909}
    (h : b.held = self.erc6909.held) : Conserved { self with erc6909 := b } := fun i => by
  change ∑ a, b.held i a = _
  rw [h]
  exact hc i

/-- A call of the plain token that moves nothing. -/
theorem rights_matches {x : Result Error (Bool × Erc6909)} (hc : self.Conserved)
    (h : ∀ ok b, x = .ok (ok, b) → b.held = self.erc6909.held) :
    Matches id Extends
      (Prod.snd <$> do let answer ← x; pure (answer.1, { self with erc6909 := answer.2 }))
      (Prod.snd <$> x) := by
  rcases x with e | ⟨ok, b⟩
  · exact .error e
  · exact .ok ⟨rfl, hc.of_held (h ok b rfl)⟩

/-- The answer of a transfer is always the same. -/
theorem answered_matches {x : Result Error Erc6909TokenSupply} {y : Result Error Erc6909}
    (h : Matches id Extends x y) :
    Matches id Extends (Prod.snd <$> do let s ← x; pure (true, s))
      (Prod.snd <$> do let b ← y; pure (true, b)) := by
  cases h with
  | ok h => exact .ok h
  | error e => exact .error e

theorem Conserved._transfer (hc : self.Conserved) (src dst : Address) (i amount : U256) :
    Matches id Extends (self._transfer src dst i amount)
      (self.erc6909._transfer src dst i amount) :=
  .ite Iff.rfl (fun _ => .error _) fun hsrc => .ite Iff.rfl (fun _ => .error _) fun _ =>
    hc._update src dst i amount fun h => absurd h hsrc

/-- **Every other operation does what that of the plain token does**, and keeps the supplies
right. -/
theorem exec_matches (hc : self.Conserved) (hroom : ¬op.Overflows self) :
    Matches id Extends (self.exec op) (execBase self.erc6909 op) := by
  cases op with
  | call tx =>
    rcases tx with ⟨caller, call⟩
    cases call with
    | approve spender i amount =>
      refine rights_matches hc fun ok b h => ?_
      rw [Erc6909.approve, Erc6909._approve, guard_eq_ok, guard_eq_ok] at h
      obtain ⟨-, rfl⟩ := Prod.mk.inj (Except.ok.inj h.2.2)
      rfl
    | setOperator spender approved =>
      refine rights_matches hc fun ok b h => ?_
      obtain ⟨t, ht, h⟩ := bind_eq_ok.mp h
      obtain ⟨-, rfl⟩ := Prod.mk.inj (pure_eq_ok.mp h)
      obtain ⟨answer, ht⟩ := snd_map_eq_ok.mp ht
      rw [Erc6909._setOperator, guard_eq_ok, guard_eq_ok] at ht
      obtain ⟨-, rfl⟩ := Prod.mk.inj (Except.ok.inj ht.2.2)
      rfl
    | transfer receiver i amount => exact answered_matches (hc._transfer caller receiver i amount)
    | transferFrom src receiver i amount =>
      change Matches id Extends
        (Prod.snd <$> do
          let erc6909 ← self.erc6909.spendFrom caller src i amount
          let self ← { self with erc6909 }._transfer src receiver i amount
          pure (true, self))
        (Prod.snd <$> self.erc6909.transferFrom caller src receiver i amount)
      rw [Erc6909.transferFrom]
      cases hspend : self.erc6909.spendFrom caller src i amount with
      | error e => exact .error e
      | ok t =>
        have hheld : t.held = self.erc6909.held := by
          funext j a
          rw [Erc6909.held, Erc6909.held, (Erc6909.spendFrom_eq_ok hspend).1]
        exact answered_matches ((hc.of_held hheld)._transfer src receiver i amount)
  | _burn src i amount =>
    refine .ite Iff.rfl (fun _ => .error _) fun hsrc => ?_
    exact hc._update src 0 i amount fun h => absurd h hsrc
  | _mint dst i amount =>
    refine .ite Iff.rfl (fun _ => .error _) fun hdst => ?_
    exact hc._update 0 dst i amount fun _ => ⟨hdst, not_le.mp fun hlarge => hroom ⟨hdst, hlarge⟩⟩

/-! ### Runs -/

theorem Reachable.conserved (h : Reachable s) : s.Conserved := by
  refine h.invariant conserved_empty fun s op s' hc _ hexec => ?_
  by_cases hover : op.Overflows s
  · obtain ⟨msg, hpanic⟩ := exec_of_overflows hover
    exact absurd (hpanic.symm.trans hexec) panic_ne_ok
  · have hmatch := exec_matches hc hover
    rw [show s.exec op = .ok s' from hexec] at hmatch
    obtain ⟨base, -, -, hc'⟩ := hmatch.exists_ok
    exact hc'

/-- **Supplies are exact, and the plain token is refined**, in every state that successful mints,
burns, transfers, approvals and grants to operators lead to. The balances of every id add up to its
supply, so that no unchecked subtraction wraps, and every operation succeeds with the balances,
allowances and operators, or fails with the error, of the plain token, except that a mint for which
there is no room in the supply panics. -/
theorem supply_exact (h : Reachable s) :
    (∀ i, ∑ a, (s.erc6909.balanceOf a i).toNat = (s.totalSupply i).toNat) ∧
    (∀ allowances src dst i amount b,
      { s.erc6909 with allowances }._update src dst i amount = .ok b → src ≠ 0 →
      amount ≤ s.erc6909.balanceOf src i ∧ amount ≤ s.totalSupply i) ∧
    (∀ op, ¬op.Overflows s →
      Matches id (fun s' b => s'.erc6909 = b) (s.exec op) (execBase s.erc6909 op)) ∧
    ∀ op, op.Overflows s → ∃ msg, s.exec op = .panic msg := by
  have hc := h.conserved
  refine ⟨hc, fun allowances src dst i amount b hb hsrc => ?_, fun op hroom => ?_,
    fun op => exec_of_overflows⟩
  · have hle : amount.toNat ≤ s.erc6909.held i src := (Erc6909._update_eq_ok hb).1 hsrc
    refine ⟨BitVec.le_def.mpr hle, BitVec.le_def.mpr ?_⟩
    rw [← hc i]
    exact hle.trans (Tally.le_sum (s.erc6909.held i) src)
  · exact (exec_matches hc hroom).mono fun _ _ hext => hext.1

/-- Account `1` is given 100 of id `7` and burns 30. -/
theorem supply_exact_burned : ∃ s, Reachable s ∧ s.erc6909.balanceOf 1 7 = 70 ∧
    ∑ a, (s.erc6909.balanceOf a 7).toNat = 70 := by
  obtain ⟨s, hs, hlook⟩ := machine.exists_reachable (P := fun _ _ => True) empty
    [._mint 1 7 100, ._burn 1 7 30] (fun s => (s.erc6909.balanceOf 1 7, s.totalSupply 7)) (70, 70)
    (fun _ _ _ => trivial) (by decide +kernel)
  obtain ⟨hbalance, hsupply⟩ := Prod.mk.inj hlook
  obtain ⟨hsum, -⟩ := supply_exact hs
  refine ⟨s, hs, hbalance, ?_⟩
  rw [hsum 7, hsupply]
  rfl

end Erc6909TokenSupply

end ContractsStylus
