import ContractsStylus.Primitives

/-!
# Nonces

A counter for each account. Nonces will only increment.

A nonce is returned and used up in one step. The counter is checked for overflow, so no number ever
comes back: whoever can show that a message contains the nonce it used has shown that the message
was accepted once. `used` counts in numbers, which do not wrap, and totals over runs are stated with
it.
-/

namespace ContractsStylus

/-- State of a `Nonces` contract. -/
structure Nonces where
  nonces : StorageMap Address U256

namespace Nonces

/-- The contract after deployment. -/
def empty : Nonces := ⟨fun _ => 0⟩

/-- Consume a nonce of `owner`, and return it. -/
def useNonce {ε : Type} (self : Nonces) (owner : Address) : Result ε (U256 × Nonces) := do
  let nonce := self.nonces owner
  let next ← addAssignChecked nonce 1 "nonce should not exceed `U256::MAX`"
  pure (nonce, ⟨Function.update self.nonces owner next⟩)

/-- The nonces, as numbers. -/
def used (self : Nonces) (owner : Address) : ℕ := (self.nonces owner).toNat

variable {ε : Type} {self self' : Nonces} {owner : Address} {nonce : U256}

/-- **A nonce is used once**: the next one is its successor, and other accounts are not
concerned. -/
theorem useNonce_eq_ok (h : self.useNonce owner = (.ok (nonce, self') : Result ε _)) :
    nonce = self.nonces owner ∧
      self'.used = Function.update self.used owner (self.used owner + 1) := by
  obtain ⟨next, hnext, h⟩ := bind_eq_ok.mp h
  obtain ⟨rfl, rfl⟩ := Prod.mk.inj (pure_eq_ok.mp h)
  refine ⟨rfl, funext fun account => ?_⟩
  have hnext : next.toNat = self.used owner + 1 := addAssignChecked_eq_ok.mp hnext
  rw [Function.update_apply, used]
  dsimp only
  rw [Function.update_apply]
  split
  · exact hnext
  · rfl

end Nonces

end ContractsStylus
