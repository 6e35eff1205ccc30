import ContractsStylus.Access.AccessControl
import ContractsStylus.Utils.EnumerableSet

/-!
# AccessControlEnumerable

The extension of `AccessControl` that lists the members of each role, and the contract that
composes the two: whatever is granted, revoked or renounced goes through the extension, which
changes its sets when the base says that it changed its roles.

## Interference

The base knows nothing of the extension. It answers whether it has changed a role, and the extension
writes its set on that answer alone, so the two agree if each answer is right. Adding to a set may
panic, and then a call fails that would have succeeded in the base.

When that happens depends on how long a vector can get. `exec_matches` says that it is the only
difference between the two contracts, for every capacity. With a capacity of more bits than an
address has it cannot happen, since the members of a role are different addresses.

## Main definitions

* `AccessControlEnumerable` — the members of every role as a set
* `AccessControlEnumerableExample` — the composition, with its calls and the functions a
  constructor uses

## Main results

* `AccessControlEnumerableExample.exec_matches` — the extension does not interfere with the base
  unless a set is full, which `AccessControlEnumerableExample.exec_matches_of_lt` can rule out
* `AccessControlEnumerableExample.members_exact` — the lists are exact
-/

namespace ContractsStylus

/-- State of an `AccessControlEnumerable` contract. -/
structure AccessControlEnumerable (C : Capacity) where
  /-- The set of members of each role. -/
  roleMembers : StorageMap B256 (EnumerableSet C Address)

namespace AccessControlEnumerable

inductive Error
  /-- There is no member of the role at the index. -/
  | OutOfBounds (role : B256) (index : U256)
  deriving DecidableEq, Repr

variable {C : Capacity} {ε : Type}

/-- The extension after deployment. -/
def empty : AccessControlEnumerable C := ⟨fun _ => EnumerableSet.empty⟩

def getRoleMembers (self : AccessControlEnumerable C) (role : B256) : Result ε (List Address) :=
  (self.roleMembers role).valuesVec

def getRoleMember (self : AccessControlEnumerable C) (role : B256) (index : U256) :
    Result Error Address :=
  okOr ((self.roleMembers role).at_ index) (.OutOfBounds role index)

def getRoleMemberCount (self : AccessControlEnumerable C) (role : B256) : U256 :=
  (self.roleMembers role).length

/-- Whether the role was granted, and both contracts after it. -/
def _grantRole (self : AccessControlEnumerable C) (role : B256) (account : Address)
    (accessControl : AccessControl) :
    Result ε (Bool × AccessControlEnumerable C × AccessControl) := do
  let granted := accessControl._grantRole role account
  if granted.1 then
    let members ← (self.roleMembers role).add account
    pure (true, ⟨Function.update self.roleMembers role members.2⟩, granted.2)
  else pure (false, self, granted.2)

/-- Whether the role was revoked, and both contracts after it. -/
def _revokeRole (self : AccessControlEnumerable C) (role : B256) (account : Address)
    (accessControl : AccessControl) :
    Result ε (Bool × AccessControlEnumerable C × AccessControl) := do
  let revoked := accessControl._revokeRole role account
  if revoked.1 then
    let members ← (self.roleMembers role).remove account
    pure (true, ⟨Function.update self.roleMembers role members.2⟩, revoked.2)
  else pure (false, self, revoked.2)

/-! ### The members of a role

The extension alone, with the base as a second argument. A grant that changes the base adds to a set
in which the account is not yet, and a revocation removes what is there. -/

/-- The sets hold the members of the roles. -/
def Listed (self : AccessControlEnumerable C) (accessControl : AccessControl) : Prop :=
  ∀ role, (self.roleMembers role).Synced ∧
    ∀ a, (self.roleMembers role).contains a = accessControl.hasRole role a

variable {self self' : AccessControlEnumerable C} {base base' : AccessControl} {role : B256}
  {account : Address} {b : Bool}

/-- Writing the set of one role. -/
theorem Listed.update (h : self.Listed base) {members : EnumerableSet C Address}
    (hsynced : members.Synced) (hmem : ∀ a, members.contains a = base'.hasRole role a)
    (hother : ∀ r, r ≠ role → ∀ a, base'.hasRole r a = base.hasRole r a) :
    Listed ⟨Function.update self.roleMembers role members⟩ base' := by
  intro r
  dsimp only
  rcases eq_or_ne r role with rfl | hne
  · rw [Function.update_self]
    exact ⟨hsynced, hmem⟩
  · rw [Function.update_of_ne hne]
    exact ⟨(h r).1, fun a => ((h r).2 a).trans (hother r hne a).symm⟩

/-- There is a role with as many members as can be counted. -/
def Full (self : AccessControlEnumerable C) : Prop :=
  ∃ role, ¬(self.roleMembers role).values.toList.length + 1 < 2 ^ C.bits

/-- A set of accounts has room for one more where there is room for all accounts. -/
theorem Listed.not_full (h : self.Listed base) (hC : 160 < C.bits) : ¬self.Full := by
  rintro ⟨role, hfull⟩
  have hcard := (h role).1.values.1.map BitVec.toFin_injective |>.length_le_card
  rw [List.length_map, Fintype.card_fin] at hcard
  have hpow : 2 ^ 161 ≤ 2 ^ C.bits := Nat.pow_le_pow_right Nat.two_pos hC
  omega

/-- **A grant is listed**, and succeeds whenever it succeeds in the base, unless there is no room
for it. -/
theorem Listed.grantRole (h : self.Listed base) (role : B256) (account : Address) :
    (∃ self', (self._grantRole role account base : Result ε _) =
        .ok ((base._grantRole role account).1, self', (base._grantRole role account).2) ∧
      self'.Listed (base._grantRole role account).2) ∨
    self.Full ∧ (self._grantRole role account base : Result ε _) =
      .panic "length overflow in `StorageVec`" := by
  obtain ⟨hsynced, hmem⟩ := h role
  rw [_grantRole]
  by_cases hrole : base.hasRole role account
  · rw [AccessControl._grantRole, if_pos hrole]
    exact .inl ⟨self, rfl, h⟩
  have hnew : ¬(self.roleMembers role).contains account := by rwa [hmem]
  have hgrant : base._grantRole role account = (true, base.setRole role account true) :=
    if_neg hrole
  rw [hgrant]
  by_cases hroom : (self.roleMembers role).values.toList.length + 1 < 2 ^ C.bits
  · obtain ⟨members, hadd⟩ := @EnumerableSet.exists_add C _ ε _ _ _ hnew hroom
    obtain ⟨hsynced', hmem'⟩ := hsynced.add hnew hadd
    rw [hadd]
    refine .inl ⟨_, rfl, h.update hsynced' (fun a => ?_) fun r hr a => ?_⟩
    · rw [AccessControl.hasRole_setRole, Bool.eq_iff_iff, hmem', hmem]
      by_cases ha : a = account
      · rw [if_pos ⟨rfl, ha⟩]
        exact iff_of_true (Or.inr ha) rfl
      · rw [if_neg fun heq => ha heq.2]
        exact or_iff_left ha
    · rw [AccessControl.hasRole_setRole, if_neg fun heq => hr heq.1]
  · refine .inr ⟨⟨role, hroom⟩, ?_⟩
    rw [EnumerableSet.add, if_neg hnew, StorageVec.push_of_full hroom]
    rfl

/-- **A revocation is taken off the list.** -/
theorem Listed.revokeRole (h : self.Listed base) (role : B256) (account : Address) :
    ∃ self', (self._revokeRole role account base : Result ε _) =
        .ok ((base._revokeRole role account).1, self', (base._revokeRole role account).2) ∧
      self'.Listed (base._revokeRole role account).2 := by
  obtain ⟨hsynced, hmem⟩ := h role
  rw [_revokeRole]
  by_cases hrole : base.hasRole role account
  · have hold : (self.roleMembers role).contains account := by rwa [hmem]
    obtain ⟨members, hremove, hsynced', hmem'⟩ :=
      @EnumerableSet.Synced.remove C _ ε _ _ _ _ hsynced hold
    have hrevoke : base._revokeRole role account = (true, base.setRole role account false) :=
      if_pos hrole
    rw [hrevoke, hremove]
    refine ⟨_, rfl, h.update hsynced' (fun a => ?_) fun r hr a => ?_⟩
    · rw [AccessControl.hasRole_setRole, Bool.eq_iff_iff, hmem', hmem]
      by_cases ha : a = account
      · rw [if_pos ⟨rfl, ha⟩]
        exact iff_of_false (fun hne => hne.2 ha) nofun
      · rw [if_neg fun heq => ha heq.2]
        exact and_iff_left ha
    · rw [AccessControl.hasRole_setRole, if_neg fun heq => hr heq.1]
  · rw [AccessControl._revokeRole, if_neg hrole]
    exact ⟨self, rfl, h⟩

end AccessControlEnumerable

/-! ### The composition

The contract that uses both. Every function of the base that changes a role has a counterpart that
goes through the extension; `execBase` is the base alone, for comparison. -/

/-- The composition of `AccessControl` and its extension. -/
structure AccessControlEnumerableExample (C : Capacity) where
  accessControl : AccessControl
  enumerable : AccessControlEnumerable C

namespace AccessControlEnumerableExample

open AccessControl (Error)

variable {C : Capacity} {ε : Type}

/-- The contract after deployment. -/
def empty : AccessControlEnumerableExample C := ⟨AccessControl.empty, AccessControlEnumerable.empty⟩

/-- `self.enumerable._grant_role(role, account, &mut self.access_control)`. -/
def _grantRole (self : AccessControlEnumerableExample C) (role : B256) (account : Address) :
    Result ε (AccessControlEnumerableExample C) := do
  let granted ← self.enumerable._grantRole role account self.accessControl
  pure ⟨granted.2.2, granted.2.1⟩

/-- `self.enumerable._revoke_role(role, account, &mut self.access_control)`. -/
def _revokeRole (self : AccessControlEnumerableExample C) (role : B256) (account : Address) :
    Result ε (AccessControlEnumerableExample C) := do
  let revoked ← self.enumerable._revokeRole role account self.accessControl
  pure ⟨revoked.2.2, revoked.2.1⟩

def grantRole (self : AccessControlEnumerableExample C) (sender : Address) (role : B256)
    (account : Address) : Result Error (AccessControlEnumerableExample C) := do
  let adminRole := self.accessControl.getRoleAdmin role
  self.accessControl.onlyRole sender adminRole
  self._grantRole role account

def revokeRole (self : AccessControlEnumerableExample C) (sender : Address) (role : B256)
    (account : Address) : Result Error (AccessControlEnumerableExample C) := do
  let adminRole := self.accessControl.getRoleAdmin role
  self.accessControl.onlyRole sender adminRole
  self._revokeRole role account

def renounceRole (self : AccessControlEnumerableExample C) (sender : Address) (role : B256)
    (confirmation : Address) : Result Error (AccessControlEnumerableExample C) :=
  if sender ≠ confirmation then .err .BadConfirmation else self._revokeRole role confirmation

/-- The calls, and the functions by which a constructor sets up the roles. -/
inductive Op
  | call (c : AccessControl.Call)
  | _grantRole (role : B256) (account : Address)
  | _revokeRole (role : B256) (account : Address)
  | _setRoleAdmin (role newAdminRole : B256)
  deriving DecidableEq

/-- An operation with its sender. -/
structure Tx where
  sender : Address
  op : Op
  deriving DecidableEq

def exec (self : AccessControlEnumerableExample C) (tx : Tx) :
    Result Error (AccessControlEnumerableExample C) :=
  match tx.op with
  | .call (.grantRole role account) => self.grantRole tx.sender role account
  | .call (.revokeRole role account) => self.revokeRole tx.sender role account
  | .call (.renounceRole role confirmation) => self.renounceRole tx.sender role confirmation
  | ._grantRole role account => self._grantRole role account
  | ._revokeRole role account => self._revokeRole role account
  | ._setRoleAdmin role newAdminRole =>
    .ok { self with accessControl := self.accessControl._setRoleAdmin role newAdminRole }

/-- The same operation of the base alone. -/
def execBase (base : AccessControl) (tx : Tx) : Result Error AccessControl :=
  match tx.op with
  | .call c => base.exec ⟨tx.sender, c⟩
  | ._grantRole role account => .ok (base._grantRole role account).2
  | ._revokeRole role account => .ok (base._revokeRole role account).2
  | ._setRoleAdmin role newAdminRole => .ok (base._setRoleAdmin role newAdminRole)

/-- The contract as a machine. -/
def machine : Machine (AccessControlEnumerableExample C) Tx (Revert Error) := ⟨exec⟩

/-- The sets hold the members of the roles. -/
def Listed (self : AccessControlEnumerableExample C) : Prop :=
  self.enumerable.Listed self.accessControl

/-! ### Both in lockstep

A call has the same outcome in both, but for a set without room. Invariants of the sets come from
the comparison and from the base. -/

/-- The contract has the roles of the base, and lists their members. -/
def Extends (self : AccessControlEnumerableExample C) (base : AccessControl) : Prop :=
  self.accessControl = base ∧ self.Listed

variable {self s : AccessControlEnumerableExample C} {base : AccessControl} {r : B256}

theorem listed_empty : (empty : AccessControlEnumerableExample C).Listed :=
  fun _ => ⟨EnumerableSet.synced_empty, fun _ => rfl⟩

theorem grantRole_matches (h : self.Listed) (role : B256) (account : Address) :
    Matches id Extends (self._grantRole role account : Result ε _)
        (.ok (self.accessControl._grantRole role account).2) ∨
      self.enumerable.Full ∧ (self._grantRole role account : Result ε _) =
        .panic "length overflow in `StorageVec`" := by
  rw [_grantRole]
  rcases @AccessControlEnumerable.Listed.grantRole C ε _ _ h role account with
    ⟨enumerable, hgrant, hlisted⟩ | ⟨hfull, hgrant⟩
  · rw [hgrant]
    exact .inl (.ok ⟨rfl, hlisted⟩)
  · rw [hgrant]
    exact .inr ⟨hfull, rfl⟩

theorem revokeRole_matches (h : self.Listed) (role : B256) (account : Address) :
    Matches id Extends (self._revokeRole role account : Result ε _)
      (.ok (self.accessControl._revokeRole role account).2) := by
  obtain ⟨enumerable, hrevoke, hlisted⟩ :=
    @AccessControlEnumerable.Listed.revokeRole C ε _ _ h role account
  rw [_revokeRole, hrevoke]
  exact .ok ⟨rfl, hlisted⟩

/-- **The extension does not interfere with the base**: every operation succeeds and fails as in
the base, and what it does to the roles is listed, unless it would list more members of a role than
can be counted. -/
theorem exec_matches (h : self.Extends base) (tx : Tx) :
    Matches id Extends (self.exec tx) (execBase base tx) ∨
      self.enumerable.Full ∧ self.exec tx = .panic "length overflow in `StorageVec`" := by
  obtain ⟨rfl, hlisted⟩ := h
  rcases tx with ⟨sender, op⟩
  cases op with
  | call c =>
    cases c with
    | grantRole role account =>
      change Matches _ _ (self.grantRole sender role account)
        (self.accessControl.grantRole sender role account) ∨ _ ∧ self.grantRole _ _ _ = _
      rw [grantRole, AccessControl.grantRole]
      cases self.accessControl.onlyRole sender (self.accessControl.getRoleAdmin role) with
      | ok u => exact grantRole_matches hlisted role account
      | error e => exact .inl (.error e)
    | revokeRole role account =>
      exact .inl ((Matches.refl _).bind fun _ _ _ => revokeRole_matches hlisted role account)
    | renounceRole role confirmation =>
      exact .inl (.ite Iff.rfl (fun _ => .error _) fun _ =>
        revokeRole_matches hlisted role confirmation)
  | _grantRole role account => exact grantRole_matches hlisted role account
  | _revokeRole role account => exact .inl (revokeRole_matches hlisted role account)
  | _setRoleAdmin role newAdminRole =>
    refine .inl (.ok ⟨rfl, fun r => ⟨(hlisted r).1, fun a => ((hlisted r).2 a).trans ?_⟩⟩)
    exact (self.accessControl.hasRole_setRoleAdmin role newAdminRole r a).symm

/-- Where there is room for all accounts, it never interferes. -/
theorem exec_matches_of_lt (hC : 160 < C.bits) (h : self.Extends base) (tx : Tx) :
    Matches id Extends (self.exec tx) (execBase base tx) :=
  (exec_matches h tx).resolve_right fun hfull => h.2.not_full hC hfull.1

/-- The members are listed in every state that operations lead to. -/
theorem listed_of_reachable (h : machine.Reachable (fun _ _ => True) empty s) : s.Listed := by
  refine h.invariant listed_empty fun s tx s' hs _ hexec => ?_
  have hok : s.exec tx = .ok s' := hexec
  rcases exec_matches ⟨rfl, hs⟩ tx with hmatch | ⟨-, hpanic⟩
  · rw [hok] at hmatch
    obtain ⟨base, -, -, hlisted⟩ := hmatch.exists_ok
    exact hlisted
  · exact absurd (hpanic.symm.trans hok) panic_ne_ok

/-- A member is at an index below the count. -/
theorem getRoleMember_eq_ok {e : AccessControlEnumerable C} {i : U256} {a : Address} :
    e.getRoleMember r i = .ok a ↔ (e.roleMembers r).values.toList[i.toNat]? = some a :=
  okOr_eq_ok

/-- **The lists are exact**, in every state that grants, revocations and renouncements lead to:
`get_role_members` lists the members of a role, each once, the count is their number, and the
members at the indices below the count are these. -/
theorem members_exact (h : machine.Reachable (fun _ _ => True) empty s) (r : B256) :
    (∃ l, (s.enumerable.getRoleMembers r : Result ε _) = .ok l ∧ l.Nodup ∧
      (∀ a, a ∈ l ↔ s.accessControl.hasRole r a) ∧
      (s.enumerable.getRoleMemberCount r).toNat = l.length) ∧
    (s.enumerable.getRoleMemberCount r).toNat =
      (Finset.univ.filter fun a => s.accessControl.hasRole r a).card ∧
    (∀ i, (∃ a, s.enumerable.getRoleMember r i = .ok a) ↔
      i < s.enumerable.getRoleMemberCount r) ∧
    (∀ i, s.enumerable.getRoleMemberCount r ≤ i →
      s.enumerable.getRoleMember r i = .err (.OutOfBounds r i)) ∧
    (∀ i a, s.enumerable.getRoleMember r i = .ok a → s.accessControl.hasRole r a) ∧
    ∀ i j a, s.enumerable.getRoleMember r i = .ok a → s.enumerable.getRoleMember r j = .ok a →
      i = j := by
  obtain ⟨hsynced, hmem⟩ := listed_of_reachable h r
  obtain ⟨hnodup, hlist⟩ := hsynced.values
  simp only [hmem] at hlist
  have hcount : (s.enumerable.getRoleMemberCount r).toNat =
      (s.enumerable.roleMembers r).values.toList.length := StorageVec.len_toNat _
  refine ⟨⟨_, EnumerableSet.valuesVec_eq _, hnodup, hlist, hcount⟩, ?_, fun i => ?_, fun i hi => ?_,
    fun i a hi => ?_, fun i j a hi hj => ?_⟩
  · rw [hcount, ← List.toFinset_card_of_nodup hnodup]
    refine congrArg Finset.card (Finset.ext fun a => ?_)
    rw [List.mem_toFinset, hlist, Finset.mem_filter, and_iff_right (Finset.mem_univ a)]
  · rw [BitVec.lt_def, hcount]
    constructor
    · rintro ⟨a, ha⟩
      exact (List.getElem?_eq_some_iff.mp (getRoleMember_eq_ok.mp ha)).1
    · exact fun hi => ⟨_, getRoleMember_eq_ok.mpr (List.getElem?_eq_getElem hi)⟩
  · rw [BitVec.le_def, hcount] at hi
    have hnone : (s.enumerable.roleMembers r).at_ i = none := List.getElem?_eq_none_iff.mpr hi
    rw [AccessControlEnumerable.getRoleMember, hnone]
    rfl
  · exact (hlist a).mp (List.mem_of_getElem? (getRoleMember_eq_ok.mp hi))
  · obtain ⟨hlt, hi⟩ := List.getElem?_eq_some_iff.mp (getRoleMember_eq_ok.mp hi)
    obtain ⟨hlt', hj⟩ := List.getElem?_eq_some_iff.mp (getRoleMember_eq_ok.mp hj)
    exact BitVec.eq_of_toNat_eq (hnodup.getElem_inj_iff.mp (hi.trans hj.symm))

/-- Three members are granted role `7`, and the first of them renounces it. -/
theorem members_exact_three : ∃ s : AccessControlEnumerableExample .wasm32,
    (s.enumerable.getRoleMembers 7 : Result Error _) = .ok [3, 2] ∧
      (s.enumerable.getRoleMemberCount 7).toNat = 2 := by
  obtain ⟨s, hs, hlook⟩ := machine.exists_reachable (P := fun _ _ => True)
    (empty : AccessControlEnumerableExample .wasm32)
    [⟨0, ._grantRole 0 1⟩, ⟨1, .call (.grantRole 7 1)⟩, ⟨1, .call (.grantRole 7 2)⟩,
      ⟨1, .call (.grantRole 7 3)⟩, ⟨1, .call (.grantRole 7 2)⟩, ⟨1, .call (.renounceRole 7 1)⟩]
    (fun s => (s.enumerable.getRoleMembers 7 : Result Error _)) (.ok [3, 2])
    (fun _ _ _ => trivial) rfl
  obtain ⟨⟨l, hl, -, -, hcount⟩, -⟩ := @members_exact _ Error _ hs 7
  rw [hlook] at hl
  rw [← Except.ok.inj hl] at hcount
  exact ⟨s, hlook, hcount⟩

end AccessControlEnumerableExample

end ContractsStylus
