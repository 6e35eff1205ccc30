import ContractsStylus.Library.Runs
import ContractsStylus.Primitives
import Mathlib.Data.Set.Defs

/-!
# AccessControl

Roles, each with its members and with an admin role, whose members can grant and revoke it.

## Closed sets of roles

Who can change the members of a role are the members of its admin role, and who can change these are
the members of the admin role of that, and so on up. A set of roles that contains all of these can
be changed only from within, and `confinement` says so without speaking of chains: the set is any
one that is `ClosedUnderAdmin`. The roles that are not in the set do not matter, not even to
somebody who holds them all.

Admin roles are set by the constructors of the contracts that inherit from this one, and by none of
its calls. They are a constant of a run, and results are about every assignment of them.

## Main definitions

* `AccessControl` — the members and the admin role of every role
* `AccessControl.Call`, `AccessControl.exec`, `AccessControl.machine` — the calls
* `AccessControl.ClosedUnderAdmin` — sets of roles that contain the admin roles of their members

## Main results

* `AccessControl.exec_cases` — what a call does to the members of the roles
* `AccessControl.confinement` — who holds none of a closed set of roles cannot change who does
-/

namespace ContractsStylus

/-- Information about a specific role. -/
structure RoleData where
  /-- Whether an account is member of a certain role. -/
  hasRole : StorageMap Address Bool
  /-- The admin role for this role. -/
  adminRole : B256

/-- State of an `AccessControl` contract. -/
structure AccessControl where
  /-- Role identifier to its information. -/
  roles : StorageMap B256 RoleData

namespace AccessControl

inductive Error
  /-- The caller account is missing a role. -/
  | UnauthorizedAccount (account : Address) (neededRole : B256)
  /-- The caller of a function is not the expected one. -/
  | BadConfirmation
  deriving DecidableEq, Repr

/-- The contract after deployment: nobody has a role. -/
def empty : AccessControl := ⟨fun _ => ⟨fun _ => false, 0⟩⟩

def hasRole (self : AccessControl) (role : B256) (account : Address) : Bool :=
  (self.roles role).hasRole account

def getRoleAdmin (self : AccessControl) (role : B256) : B256 := (self.roles role).adminRole

/-- `self.roles.setter(role).has_role.insert(account, value)`. -/
def setRole (self : AccessControl) (role : B256) (account : Address) (value : Bool) :
    AccessControl :=
  let data := self.roles role
  ⟨Function.update self.roles role
    { data with hasRole := Function.update data.hasRole account value }⟩

def _setRoleAdmin (self : AccessControl) (role newAdminRole : B256) : AccessControl :=
  ⟨Function.update self.roles role { self.roles role with adminRole := newAdminRole }⟩

def _checkRole (self : AccessControl) (role : B256) (account : Address) : Result Error Unit :=
  if ¬self.hasRole role account then .err (.UnauthorizedAccount account role) else .ok ()

/-- Whether the role was granted, and the roles after it. -/
def _grantRole (self : AccessControl) (role : B256) (account : Address) : Bool × AccessControl :=
  if self.hasRole role account then (false, self) else (true, self.setRole role account true)

/-- Whether the role was revoked, and the roles after it. -/
def _revokeRole (self : AccessControl) (role : B256) (account : Address) : Bool × AccessControl :=
  if self.hasRole role account then (true, self.setRole role account false) else (false, self)

/-! ### Calls

A call asks for the sender's role and then writes one entry. Accounts may renounce their own roles
only, which they confirm by naming themselves. -/

def onlyRole (self : AccessControl) (sender : Address) (role : B256) : Result Error Unit :=
  self._checkRole role sender

def grantRole (self : AccessControl) (sender : Address) (role : B256) (account : Address) :
    Result Error AccessControl := do
  let adminRole := self.getRoleAdmin role
  self.onlyRole sender adminRole
  pure (self._grantRole role account).2

def revokeRole (self : AccessControl) (sender : Address) (role : B256) (account : Address) :
    Result Error AccessControl := do
  let adminRole := self.getRoleAdmin role
  self.onlyRole sender adminRole
  pure (self._revokeRole role account).2

def renounceRole (self : AccessControl) (sender : Address) (role : B256) (confirmation : Address) :
    Result Error AccessControl :=
  if sender ≠ confirmation then .err .BadConfirmation
  else pure (self._revokeRole role confirmation).2

/-- The calls that change the contract. -/
inductive Call
  | grantRole (role : B256) (account : Address)
  | revokeRole (role : B256) (account : Address)
  | renounceRole (role : B256) (confirmation : Address)
  deriving DecidableEq

/-- A call with its sender. -/
structure Tx where
  sender : Address
  call : Call
  deriving DecidableEq

def exec (self : AccessControl) (tx : Tx) : Result Error AccessControl :=
  match tx.call with
  | .grantRole role account => self.grantRole tx.sender role account
  | .revokeRole role account => self.revokeRole tx.sender role account
  | .renounceRole role confirmation => self.renounceRole tx.sender role confirmation

/-- The contract as a machine. -/
def machine : Machine AccessControl Tx (Revert Error) := ⟨exec⟩

/-! ### The roles after a call

`hasRole` after a write, and then what each call does to it: one entry, for a reason that is
known. -/

variable {self self' : AccessControl} {role r : B256} {account a sender : Address} {tx : Tx}

theorem hasRole_setRole (self : AccessControl) (role : B256) (account : Address) (value : Bool)
    (r : B256) (a : Address) : (self.setRole role account value).hasRole r a =
      if r = role ∧ a = account then value else self.hasRole r a := by
  rcases eq_or_ne r role with rfl | hr
  · simp [hasRole, setRole, Function.update_apply]
  · simp [hasRole, setRole, hr]

@[simp] theorem getRoleAdmin_setRole (self : AccessControl) (role : B256) (account : Address)
    (value : Bool) (r : B256) :
    (self.setRole role account value).getRoleAdmin r = self.getRoleAdmin r := by
  rcases eq_or_ne r role with rfl | hr
  · simp [getRoleAdmin, setRole]
  · simp [getRoleAdmin, setRole, hr]

theorem hasRole_setRoleAdmin (self : AccessControl) (role newAdminRole r : B256) (a : Address) :
    (self._setRoleAdmin role newAdminRole).hasRole r a = self.hasRole r a := by
  rcases eq_or_ne r role with rfl | hr
  · simp [hasRole, _setRoleAdmin]
  · simp [hasRole, _setRoleAdmin, hr]

/-- Granting makes the account a member and changes nothing else. -/
theorem hasRole_grantRole (self : AccessControl) (role : B256) (account : Address) (r : B256)
    (a : Address) : (self._grantRole role account).2.hasRole r a =
      if r = role ∧ a = account then true else self.hasRole r a := by
  rw [_grantRole]
  split
  · rename_i h
    split
    · rename_i heq
      rw [heq.1, heq.2, h]
    · rfl
  · exact hasRole_setRole self role account true r a

/-- Revoking ends the account's membership and changes nothing else. -/
theorem hasRole_revokeRole (self : AccessControl) (role : B256) (account : Address) (r : B256)
    (a : Address) : (self._revokeRole role account).2.hasRole r a =
      if r = role ∧ a = account then false else self.hasRole r a := by
  rw [_revokeRole]
  split
  · exact hasRole_setRole self role account false r a
  · rename_i h
    split
    · rename_i heq
      rw [heq.1, heq.2]
      exact Bool.eq_false_iff.mpr h
    · rfl

@[simp] theorem getRoleAdmin_grantRole (self : AccessControl) (role : B256) (account : Address)
    (r : B256) : (self._grantRole role account).2.getRoleAdmin r = self.getRoleAdmin r := by
  rw [_grantRole]
  split
  · rfl
  · exact getRoleAdmin_setRole self role account true r

@[simp] theorem getRoleAdmin_revokeRole (self : AccessControl) (role : B256) (account : Address)
    (r : B256) : (self._revokeRole role account).2.getRoleAdmin r = self.getRoleAdmin r := by
  rw [_revokeRole]
  split
  · exact getRoleAdmin_setRole self role account false r
  · rfl

theorem checkRole_eq_ok {u : Unit} :
    self._checkRole role account = .ok u ↔ self.hasRole role account := by
  rw [_checkRole, guard_eq_ok, not_not]
  exact and_iff_left rfl

/-- **What a call does**: the holder of an admin role grants or revokes its role, or the sender
renounces a role. -/
theorem exec_cases (h : self.exec tx = .ok self') :
    (∃ role account, tx.call = .grantRole role account ∧
      self.hasRole (self.getRoleAdmin role) tx.sender ∧ self' = (self._grantRole role account).2) ∨
    (∃ role account, tx.call = .revokeRole role account ∧
      self.hasRole (self.getRoleAdmin role) tx.sender ∧ self' = (self._revokeRole role account).2) ∨
    ∃ role, tx.call = .renounceRole role tx.sender ∧
      self' = (self._revokeRole role tx.sender).2 := by
  rcases tx with ⟨sender, call⟩
  cases call with
  | grantRole role account =>
    obtain ⟨u, hcheck, h⟩ := bind_eq_ok.mp h
    exact Or.inl ⟨role, account, rfl, checkRole_eq_ok.mp hcheck, (pure_eq_ok.mp h).symm⟩
  | revokeRole role account =>
    obtain ⟨u, hcheck, h⟩ := bind_eq_ok.mp h
    exact Or.inr (Or.inl ⟨role, account, rfl, checkRole_eq_ok.mp hcheck, (pure_eq_ok.mp h).symm⟩)
  | renounceRole role confirmation =>
    obtain ⟨hsender, h⟩ := guard_eq_ok.mp h
    obtain rfl : sender = confirmation := not_ne_iff.mp hsender
    exact Or.inr (Or.inr ⟨role, rfl, (pure_eq_ok.mp h).symm⟩)

/-- No call changes an admin role. -/
theorem getRoleAdmin_exec (h : self.exec tx = .ok self') (r : B256) :
    self'.getRoleAdmin r = self.getRoleAdmin r := by
  rcases exec_cases h with ⟨role, account, -, -, rfl⟩ | ⟨role, account, -, -, rfl⟩ | ⟨role, -, rfl⟩
  · exact getRoleAdmin_grantRole self role account r
  · exact getRoleAdmin_revokeRole self role account r
  · exact getRoleAdmin_revokeRole self role tx.sender r

/-- A role is gained by a grant of its admin. -/
theorem granted_of_exec (h : self.exec tx = .ok self') (hnot : ¬self.hasRole r a)
    (hrole : self'.hasRole r a) :
    tx.call = .grantRole r a ∧ self.hasRole (self.getRoleAdmin r) tx.sender := by
  rcases exec_cases h with ⟨role, account, hcall, hadmin, rfl⟩ | ⟨role, account, -, -, rfl⟩ |
    ⟨role, -, rfl⟩
  · rw [hasRole_grantRole] at hrole
    by_cases heq : r = role ∧ a = account
    · obtain ⟨rfl, rfl⟩ := heq
      exact ⟨hcall, hadmin⟩
    · rw [if_neg heq] at hrole
      exact absurd hrole hnot
  · rw [hasRole_revokeRole] at hrole
    split at hrole
    · exact nomatch hrole
    · exact absurd hrole hnot
  · rw [hasRole_revokeRole] at hrole
    split at hrole
    · exact nomatch hrole
    · exact absurd hrole hnot

/-- A role is lost by a revocation of its admin, or because it is renounced. -/
theorem revoked_of_exec (h : self.exec tx = .ok self') (hrole : self.hasRole r a)
    (hnot : ¬self'.hasRole r a) :
    (tx.call = .revokeRole r a ∧ self.hasRole (self.getRoleAdmin r) tx.sender) ∨
      tx = ⟨a, .renounceRole r a⟩ := by
  rcases exec_cases h with ⟨role, account, -, -, rfl⟩ | ⟨role, account, hcall, hadmin, rfl⟩ |
    ⟨role, hcall, rfl⟩
  · rw [hasRole_grantRole] at hnot
    split at hnot
    · exact absurd rfl hnot
    · exact absurd hrole hnot
  · rw [hasRole_revokeRole] at hnot
    by_cases heq : r = role ∧ a = account
    · obtain ⟨rfl, rfl⟩ := heq
      exact Or.inl ⟨hcall, hadmin⟩
    · rw [if_neg heq] at hnot
      exact absurd hrole hnot
  · rw [hasRole_revokeRole] at hnot
    by_cases heq : r = role ∧ a = tx.sender
    · obtain ⟨rfl, rfl⟩ := heq
      exact Or.inr (by rw [← hcall])
    · rw [if_neg heq] at hnot
      exact absurd hrole hnot

/-! ### Confinement

The step is about one call by an account that has no role of the set; the run lemma says that the
set has the same members as at first, so that the account still has none. -/

variable {R : Set B256} {S : Set Address} {s : AccessControl} {txs : List Tx}

/-- A set of roles that contains the admin roles of its members. -/
def ClosedUnderAdmin (self : AccessControl) (R : Set B256) : Prop :=
  ∀ r ∈ R, self.getRoleAdmin r ∈ R

/-- One call of an account without a role in a closed set. -/
theorem hasRole_exec (hR : self.ClosedUnderAdmin R) (hsender : ∀ r ∈ R, ¬self.hasRole r tx.sender)
    (h : self.exec tx = .ok self') (hr : r ∈ R) (a : Address) :
    self'.hasRole r a = self.hasRole r a := by
  rw [Bool.eq_iff_iff]
  constructor
  · intro hrole
    by_contra hnot
    obtain ⟨-, hadmin⟩ := granted_of_exec h hnot hrole
    exact hsender _ (hR r hr) hadmin
  · intro hrole
    by_contra hnot
    rcases revoked_of_exec h hrole hnot with ⟨-, hadmin⟩ | rfl
    · exact hsender _ (hR r hr) hadmin
    · exact hsender r hr hrole

/-- The admin roles are those of `s`, and so are the members of the roles in `R`. -/
def SameMembers (s : AccessControl) (R : Set B256) (t : AccessControl) : Prop :=
  (∀ r, t.getRoleAdmin r = s.getRoleAdmin r) ∧ ∀ r ∈ R, ∀ a, t.hasRole r a = s.hasRole r a

/-- **Confinement.** Whatever accounts without a role in a closed set do, nobody gains or loses a
role in it. -/
theorem hasRole_run (hR : s.ClosedUnderAdmin R) (hS : ∀ r ∈ R, ∀ a ∈ S, ¬s.hasRole r a)
    (htxs : ∀ tx ∈ txs, tx.sender ∈ S) : s.SameMembers R (machine.run s txs) := by
  have hstep : ∀ t t', ∀ tx ∈ txs, s.SameMembers R t → machine.exec t tx = .ok t' →
      s.SameMembers R t' := by
    rintro t t' tx htx ⟨hadmin, hrole⟩ hexec
    refine ⟨fun r => (getRoleAdmin_exec hexec r).trans (hadmin r), fun r hr a => ?_⟩
    refine (hasRole_exec (R := R) (fun r hr => ?_) (fun r hr => ?_) hexec hr a).trans (hrole r hr a)
    · rw [hadmin]
      exact hR r hr
    · rw [hrole r hr]
      exact hS r hr tx.sender (htxs tx htx)
  exact machine.run_invariant hstep ⟨fun _ => rfl, fun _ _ _ => rfl⟩

/-- **Roles are confined**, from any assignment of roles and admin roles on. Calls of accounts that
hold no role of a set closed under admin roles leave the members of these roles as they were, and
in every run a role is gained only by a grant from a holder of its admin role, and lost only by a
revocation from such a holder or by renouncing it. -/
theorem confinement (s : AccessControl) :
    (∀ (R : Set B256) (S : Set Address) (txs : List Tx), s.ClosedUnderAdmin R →
      (∀ r ∈ R, ∀ a ∈ S, ¬s.hasRole r a) → (∀ tx ∈ txs, tx.sender ∈ S) →
      ∀ r ∈ R, ∀ a, (machine.run s txs).hasRole r a = s.hasRole r a) ∧
    ∀ (txs : List Tx) (tx : Tx) (r : B256) (a : Address),
      (¬(machine.run s txs).hasRole r a → (machine.run s (txs ++ [tx])).hasRole r a →
        tx.call = .grantRole r a ∧ (machine.run s txs).hasRole (s.getRoleAdmin r) tx.sender) ∧
      ((machine.run s txs).hasRole r a → ¬(machine.run s (txs ++ [tx])).hasRole r a →
        (tx.call = .revokeRole r a ∧ (machine.run s txs).hasRole (s.getRoleAdmin r) tx.sender) ∨
          tx = ⟨a, .renounceRole r a⟩) := by
  refine ⟨fun R S txs hR hS htxs => (hasRole_run hR hS htxs).2, fun txs tx r a => ?_⟩
  have hadmin : (machine.run s txs).getRoleAdmin r = s.getRoleAdmin r :=
    (hasRole_run (R := ∅) (S := Set.univ) nofun nofun fun _ _ => trivial).1 r
  rw [← hadmin, Machine.run_append, Machine.run_cons, Machine.run_nil]
  rcases machine.step_cases (machine.run s txs) tx with ⟨s', hexec, hstep⟩ | hstep
  · rw [hstep]
    exact ⟨granted_of_exec hexec, revoked_of_exec hexec⟩
  · rw [hstep]
    exact ⟨fun hnot hrole => absurd hrole hnot, fun hrole hnot => absurd hrole hnot⟩

/-- Account `2` administers role `8` only, and neither it nor account `3`, to which it grants that
role, can get role `7`, which administers itself. -/
theorem confinement_outsiders : ∃ s : AccessControl, ∃ txs : List Tx,
    ((machine.run s txs).hasRole 8 3, (machine.run s txs).hasRole 7 3) = (true, false) := by
  have hconfined := (confinement (((empty._setRoleAdmin 7 7)._setRoleAdmin 8 9)._grantRole 9 2).2).1
    {7} {2, 3} [⟨2, .grantRole 8 3⟩, ⟨3, .grantRole 7 3⟩, ⟨2, .grantRole 7 2⟩] ?_ ?_ ?_ 7 rfl 3
  · exact ⟨_, _, congrArg₂ Prod.mk rfl (hconfined.trans rfl)⟩
  · rintro r rfl
    rfl
  · rintro r rfl a (rfl | rfl)
    · exact nofun
    · exact nofun
  · simp

end AccessControl

end ContractsStylus
