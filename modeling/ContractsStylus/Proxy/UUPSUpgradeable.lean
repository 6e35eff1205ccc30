import ContractsStylus.Proxy.Erc1967

/-!
# UUPSUpgradeable

Implementations that upgrade the proxies in front of them. A constructor leaves a flag in the
storage of the implementation, which tells a direct call from one through a proxy, where the flag
is not set. The proxy has the number of the version of its implementation in its storage, and
upgrades are accepted only while the two agree.

Every implementation has its own `VERSION_NUMBER`, which is a parameter here. Where the source
returns an encoded error, the functions return the error.

## Versions

An upgrade first checks that the version in the storage is the one of the running code. Then it lets
the new implementation confirm that it is one, writes the slot, makes the call that sets the new
implementation up, and lets its code set the version. That call is given control while slot and
version disagree. Nothing in this module depends on what it does: what is stated is what the
functions check, what they write and whom they call.

## Main definitions

* `UUPSUpgradeable.Error`, `UUPSUpgradeable.Context`
* `UUPSUpgradeable.onlyProxy`, `UUPSUpgradeable.notDelegated`, `UUPSUpgradeable.proxiableUuid`
* `UUPSUpgradeable.setVersion`, `UUPSUpgradeable.upgradeToAndCall`

## Main results

* `UUPSUpgradeable.upgradeToAndCall_eq_ok` — what an upgrade that succeeds has passed and done
* `UUPSUpgradeable.upgradeToAndCall_of_logicFlag` — direct calls fail
-/

namespace ContractsStylus

namespace UUPSUpgradeable

open Erc1967Utils (IMPLEMENTATION_SLOT SetUp)

inductive Error
  | UnauthorizedCallContext
  | UnsupportedProxiableUUID (slot : B256)
  | InvalidImplementation (implementation : Address)
  | InvalidAdmin (admin : Address)
  | InvalidBeacon (beacon : Address)
  | NonPayable
  | EmptyCode (target : Address)
  | FailedCall
  | FailedCallWithReason (reason : Bytes)
  | InvalidInitialization
  | InvalidVersion (currentVersion : U32)
  deriving DecidableEq, Repr

/-- `From<erc1967::utils::Error>`. -/
def Error.ofErc1967 : Erc1967Utils.Error → Error
  | .InvalidImplementation implementation => .InvalidImplementation implementation
  | .InvalidAdmin admin => .InvalidAdmin admin
  | .InvalidBeacon beacon => .InvalidBeacon beacon
  | .NonPayable => .NonPayable
  | .EmptyCode target => .EmptyCode target
  | .FailedCall => .FailedCall
  | .FailedCallWithReason reason => .FailedCallWithReason reason

/-- What a function finds around it, other implementations among it. -/
structure Context extends DelegateContext where
  /-- `Erc1822ProxiableInterface::new(target).proxiable_uuid()`, if that can be had. -/
  proxiableUUID : World → (target : Address) → Option B256

/-- `UUPSUpgradeableAbi::setVersionCall`, encoded: the selector of `setVersion()`. -/
def setVersionCall : Bytes := [0x0e, 0x15, 0x93, 0x2b]

/-! ### Checks -/

/-- The constructor of an implementation, which runs in its own storage. -/
def constructor (self : ProxyStorage) : ProxyStorage := { self with logicFlag := true }

def isLogic (self : ProxyStorage) : Bool := self.logicFlag

def notDelegated (self : ProxyStorage) : Result Error Unit :=
  if isLogic self then .ok () else .err .UnauthorizedCallContext

def proxiableUuid (self : ProxyStorage) : Result Error B256 := do
  notDelegated self
  pure IMPLEMENTATION_SLOT

section Functions

variable (VERSION_NUMBER : U32)

def onlyProxy (self : ProxyStorage) : Result Error Unit :=
  if isLogic self ∨ self.implementation = 0 ∨ VERSION_NUMBER ≠ self.version then
    .err .UnauthorizedCallContext
  else .ok ()

/-! ### Upgrades -/

def setVersion (self : ProxyStorage) : Result Error ProxyStorage :=
  if (notDelegated self).isOk then .err .UnauthorizedCallContext
  else if self.version > VERSION_NUMBER then .err (.InvalidVersion self.version)
  else .ok { self with version := VERSION_NUMBER }

variable (ctx : Context)

def _upgradeToAndCallUups (w : World) (newImplementation : Address) (data : Bytes) :
    Result Error World :=
  match ctx.proxiableUUID w newImplementation with
  | none => .err (.InvalidImplementation newImplementation)
  | some slot =>
    if slot = IMPLEMENTATION_SLOT then
      (Erc1967Utils.upgradeToAndCall ctx.toDelegateContext w newImplementation data).mapErr
        Error.ofErc1967
    else .err (.UnsupportedProxiableUUID slot)

def upgradeToAndCall (w : World) (newImplementation : Address) (data : Bytes) :
    Result Error World := do
  onlyProxy VERSION_NUMBER (w ctx.this)
  let w ← _upgradeToAndCallUups ctx w newImplementation data
  let (_, w) ← (AddressUtils.functionDelegateCall ctx.hasCode ctx.delegateCall w newImplementation
    setVersionCall).mapErr fun e => Error.ofErc1967 (.ofAddress e)
  pure w

end Functions

/-! ### What the functions do -/

section Lemmas

variable {VERSION_NUMBER : U32} {self s' : ProxyStorage}

theorem notDelegated_isOk : (notDelegated self).isOk = self.logicFlag := by
  rw [notDelegated, isLogic]
  cases self.logicFlag <;> rfl

theorem onlyProxy_eq_ok : onlyProxy VERSION_NUMBER self = .ok () ↔
    self.logicFlag = false ∧ self.implementation ≠ 0 ∧ VERSION_NUMBER = self.version := by
  rw [onlyProxy, guard_eq_ok, isLogic]
  simp

theorem setVersion_eq_ok : setVersion VERSION_NUMBER self = .ok s' ↔
    self.logicFlag = false ∧ self.version ≤ VERSION_NUMBER ∧
      s' = { self with version := VERSION_NUMBER } := by
  rw [setVersion, guard_eq_ok, guard_eq_ok, notDelegated_isOk, Except.ok.injEq, Bool.not_eq_true,
    gt_iff_lt, BitVec.not_lt, eq_comm (a := s')]

theorem onlyProxy_of_logicFlag (h : self.logicFlag) :
    onlyProxy VERSION_NUMBER self = .err .UnauthorizedCallContext :=
  if_pos (Or.inl h)

/-- An implementation cannot be given a version by a direct call. -/
theorem setVersion_of_logicFlag (h : self.logicFlag) :
    setVersion VERSION_NUMBER self = .err .UnauthorizedCallContext :=
  if_pos (notDelegated_isOk.trans h)

variable {ctx : Context} {w w' : World} {newImplementation : Address} {data : Bytes}

/-- An implementation cannot be upgraded by a direct call. -/
theorem upgradeToAndCall_of_logicFlag (h : (w ctx.this).logicFlag) :
    upgradeToAndCall VERSION_NUMBER ctx w newImplementation data =
      .err .UnauthorizedCallContext := by
  rw [upgradeToAndCall, onlyProxy_of_logicFlag h, err_bind]

theorem _upgradeToAndCallUups_eq_ok
    (h : _upgradeToAndCallUups ctx w newImplementation data = .ok w') :
    ctx.proxiableUUID w newImplementation = some IMPLEMENTATION_SLOT ∧
      ctx.hasCode newImplementation ∧
        SetUp ctx.toDelegateContext w newImplementation data w' := by
  rw [_upgradeToAndCallUups] at h
  split at h
  · exact absurd h err_ne_ok
  · rename_i slot hslot
    obtain ⟨rfl, h⟩ := guard_not_eq_ok.mp h
    exact ⟨hslot, Erc1967Utils.upgradeToAndCall_eq_ok (mapErr_eq_ok.mp h)⟩

/-- **What an upgrade that succeeds has passed and done**: the slot is written first, and the
version last. -/
theorem upgradeToAndCall_eq_ok
    (h : upgradeToAndCall VERSION_NUMBER ctx w newImplementation data = .ok w') :
    onlyProxy VERSION_NUMBER (w ctx.this) = .ok () ∧
      ctx.proxiableUUID w newImplementation = some IMPLEMENTATION_SLOT ∧
      ctx.hasCode newImplementation ∧
      ∃ u returndata, SetUp ctx.toDelegateContext w newImplementation data u ∧
        ctx.delegateCall newImplementation setVersionCall u = .ok (returndata, w') := by
  rw [upgradeToAndCall, bind_eq_ok] at h
  obtain ⟨⟨⟩, honly, h⟩ := h
  obtain ⟨u, hu, h⟩ := bind_eq_ok.mp h
  obtain ⟨⟨returndata, v⟩, hcall, h⟩ := bind_eq_ok.mp h
  obtain rfl := pure_eq_ok.mp h
  obtain ⟨hslot, hcode, hsetup⟩ := _upgradeToAndCallUups_eq_ok hu
  exact ⟨honly, hslot, hcode, u, returndata, hsetup,
    AddressUtils.verifyCallResultFromTarget_eq_ok (mapErr_eq_ok.mp hcall)⟩

/-- Only the two calls of the new implementation depend on what is called. -/
theorem upgradeToAndCall_congr {d : Address → Bytes → World → Except Bytes (Bytes × World)}
    (h : onlyProxy VERSION_NUMBER (w ctx.this) = .ok () →
      ctx.proxiableUUID w newImplementation = some IMPLEMENTATION_SLOT →
        ctx.hasCode newImplementation →
          ctx.delegateCall newImplementation data
              (w.setImplementation ctx.this newImplementation) =
            d newImplementation data (w.setImplementation ctx.this newImplementation) ∧
          ∀ u, SetUp ctx.toDelegateContext w newImplementation data u →
            ctx.delegateCall newImplementation setVersionCall u =
              d newImplementation setVersionCall u) :
    upgradeToAndCall VERSION_NUMBER ctx w newImplementation data =
      upgradeToAndCall VERSION_NUMBER { ctx with delegateCall := d } w newImplementation data := by
  rw [upgradeToAndCall, upgradeToAndCall]
  dsimp only
  cases honly : onlyProxy VERSION_NUMBER (w ctx.this) with
  | error e => rfl
  | ok =>
    have huups : _upgradeToAndCallUups ctx w newImplementation data =
        _upgradeToAndCallUups { ctx with delegateCall := d } w newImplementation data := by
      rw [_upgradeToAndCallUups, _upgradeToAndCallUups]
      dsimp only
      split
      · rfl
      · rename_i slot hslot
        split
        · subst slot
          rw [Erc1967Utils.upgradeToAndCall_congr fun hcode => (h honly hslot hcode).1]
        · rfl
    rw [← huups]
    cases hu : _upgradeToAndCallUups ctx w newImplementation data with
    | error e => rfl
    | ok u =>
      obtain ⟨hslot, hcode, hsetup⟩ := _upgradeToAndCallUups_eq_ok hu
      simp only [ok_bind, AddressUtils.functionDelegateCall, (h honly hslot hcode).2 u hsetup]

end Lemmas

end UUPSUpgradeable

end ContractsStylus
