import ContractsStylus.Primitives

/-!
# Ownable

A contract with an account that has exclusive access to some of its functions.

The owner is never made the zero address by a transfer, but by renouncing; no transaction has the
zero address as its sender, so a contract that was left stays so. Beacons and the contracts with two
step transfers have an `Ownable` as a field, and use the lemmas here on it.
-/

namespace ContractsStylus

/-- State of an `Ownable` contract. -/
structure Ownable where
  owner : Address
  deriving DecidableEq, Repr

namespace Ownable

inductive Error
  | UnauthorizedAccount (account : Address)
  | InvalidOwner (owner : Address)
  deriving DecidableEq, Repr

def _transferOwnership (_self : Ownable) (newOwner : Address) : Ownable := ⟨newOwner⟩

def constructor (initialOwner : Address) : Result Error Ownable :=
  if initialOwner = 0 then .err (.InvalidOwner 0)
  else .ok (_transferOwnership ⟨0⟩ initialOwner)

def onlyOwner (self : Ownable) (sender : Address) : Result Error Unit :=
  if self.owner ≠ sender then .err (.UnauthorizedAccount sender) else .ok ()

def transferOwnership (self : Ownable) (sender newOwner : Address) : Result Error Ownable := do
  self.onlyOwner sender
  if newOwner = 0 then .err (.InvalidOwner 0) else .ok (self._transferOwnership newOwner)

def renounceOwnership (self : Ownable) (sender : Address) : Result Error Ownable := do
  self.onlyOwner sender
  pure (self._transferOwnership 0)

variable {self self' : Ownable} {sender newOwner : Address}

theorem onlyOwner_eq_ok {u : Unit} : self.onlyOwner sender = .ok u ↔ self.owner = sender := by
  simp only [onlyOwner, guard_eq_ok, not_not, and_true]

/-- Only the owner hands the contract over, and not to nobody. -/
theorem transferOwnership_eq_ok :
    self.transferOwnership sender newOwner = .ok self' ↔
      self.owner = sender ∧ newOwner ≠ 0 ∧ self' = ⟨newOwner⟩ := by
  simp only [transferOwnership, onlyOwner, bind_eq_ok, guard_eq_ok, Except.ok.injEq,
    _transferOwnership, exists_const, and_true, not_not, eq_comm (a := self')]

theorem renounceOwnership_eq_ok :
    self.renounceOwnership sender = .ok self' ↔ self.owner = sender ∧ self' = ⟨0⟩ := by
  simp only [renounceOwnership, bind_eq_ok, onlyOwner_eq_ok, pure_eq_ok, exists_const,
    _transferOwnership, eq_comm (a := self')]

end Ownable

end ContractsStylus
