import ContractsStylus.Access.Ownable
import ContractsStylus.Proxy.Erc1967

/-!
# Beacons

A beacon keeps the address of an implementation for any number of proxies, and `BeaconProxy` asks
its beacon for it at every call. The proxy keeps the address of the beacon twice: in a field of its
own, by which it routes, and in the slot of ERC-1967, where others look for it.

The field is in the first slot of the storage, and so is the first field of every contract whose
code runs there. So the storage is given by its slots here, and the contracts by views of them.

## Deployment

Both constructors are modelled, and with them the checks on what is passed to them. A proxy is
deployed only for a beacon that has code and answers with an account with code; the call that sets
the implementation up may do anything to the storage of the proxy, but the field with the beacon is
written last. `BeaconProxy.constructor_eq_ok` says this as an equivalence, and runs of proxies start
from it.

An answer that cannot be decoded is a failure of the call, with the error that the SDK has for it.

## Main definitions

* `UpgradeableBeacon` — a beacon that its owner upgrades
* `Beacon.Slots`, `Beacon.Storages`, `Beacon.Context` — the storages, and what a function finds
  around it
* `Erc1967Utils.setBeacon`, `Erc1967Utils.upgradeBeaconToAndCall`
* `BeaconProxy.constructor`

## Main results

* `UpgradeableBeacon.exec_eq_ok` — what a call of a beacon has done
* `BeaconProxy.constructor_eq_ok` — when a proxy can be deployed, and what it is then
-/

namespace ContractsStylus

/-! ### Upgradeable beacons -/

/-- State of an `UpgradeableBeacon` contract. -/
structure UpgradeableBeacon where
  implementation : Address
  ownable : Ownable
  deriving DecidableEq, Repr

namespace UpgradeableBeacon

inductive Error
  | InvalidImplementation (implementation : Address)
  | UnauthorizedAccount (account : Address)
  | InvalidOwner (owner : Address)
  deriving DecidableEq, Repr

/-- `From<ownable::Error>`. -/
def Error.ofOwnable : Ownable.Error → Error
  | .UnauthorizedAccount account => .UnauthorizedAccount account
  | .InvalidOwner owner => .InvalidOwner owner

section Functions

variable (hasCode : Address → Bool)

def setImplementation (self : UpgradeableBeacon) (newImplementation : Address) :
    Result Error UpgradeableBeacon :=
  if !hasCode newImplementation then .err (.InvalidImplementation newImplementation)
  else .ok { self with implementation := newImplementation }

def constructor (implementation initialOwner : Address) : Result Error UpgradeableBeacon := do
  let ownable ← (Ownable.constructor initialOwner).mapErr .ofOwnable
  setImplementation hasCode ⟨0, ownable⟩ implementation

def upgradeTo (self : UpgradeableBeacon) (sender newImplementation : Address) :
    Result Error UpgradeableBeacon := do
  (self.ownable.onlyOwner sender).mapErr .ofOwnable
  setImplementation hasCode self newImplementation

def transferOwnership (self : UpgradeableBeacon) (sender newOwner : Address) :
    Result Error UpgradeableBeacon := do
  let ownable ← (self.ownable.transferOwnership sender newOwner).mapErr .ofOwnable
  pure { self with ownable }

def renounceOwnership (self : UpgradeableBeacon) (sender : Address) :
    Result Error UpgradeableBeacon := do
  let ownable ← (self.ownable.renounceOwnership sender).mapErr .ofOwnable
  pure { self with ownable }

/-- The calls that change the storage. -/
inductive Call
  | upgradeTo (newImplementation : Address)
  | transferOwnership (newOwner : Address)
  | renounceOwnership
  deriving DecidableEq, Repr

def exec (self : UpgradeableBeacon) (sender : Address) : Call → Result Error UpgradeableBeacon
  | .upgradeTo newImplementation => self.upgradeTo hasCode sender newImplementation
  | .transferOwnership newOwner => self.transferOwnership sender newOwner
  | .renounceOwnership => self.renounceOwnership sender

end Functions

variable {hasCode : Address → Bool} {self self' : UpgradeableBeacon}
  {implementation newImplementation initialOwner sender : Address} {call : Call}

theorem setImplementation_eq_ok :
    self.setImplementation hasCode newImplementation = .ok self' ↔
      hasCode newImplementation ∧ self' = ⟨newImplementation, self.ownable⟩ := by
  simp [setImplementation, eq_comm (a := self')]

/-- A beacon that is deployed has an owner, and an implementation with code. -/
theorem constructor_eq_ok : constructor hasCode implementation initialOwner = .ok self ↔
    initialOwner ≠ 0 ∧ hasCode implementation ∧ self = ⟨implementation, ⟨initialOwner⟩⟩ := by
  simp only [constructor, Ownable.constructor, Ownable._transferOwnership, bind_eq_ok,
    mapErr_eq_ok, guard_eq_ok, Except.ok.injEq, setImplementation_eq_ok, and_assoc, exists_and_left,
    exists_eq_left', ne_eq]

/-- **What a call of a beacon has done**: it was the owner who called, and she upgraded the beacon
to an account with code, handed it over to somebody, or left it. -/
theorem exec_eq_ok : self.exec hasCode sender call = .ok self' ↔ self.ownable.owner = sender ∧
    ((∃ newImplementation, call = .upgradeTo newImplementation ∧ hasCode newImplementation ∧
        self' = ⟨newImplementation, self.ownable⟩) ∨
      (∃ newOwner, call = .transferOwnership newOwner ∧ newOwner ≠ 0 ∧
        self' = ⟨self.implementation, ⟨newOwner⟩⟩) ∨
      call = .renounceOwnership ∧ self' = ⟨self.implementation, ⟨0⟩⟩) := by
  rcases call with newImplementation | newOwner | _
  · simp [exec, upgradeTo, Ownable.onlyOwner_eq_ok, setImplementation_eq_ok]
  · simp only [exec, transferOwnership, bind_eq_ok, mapErr_eq_ok, Ownable.transferOwnership_eq_ok,
      pure_eq_ok, and_assoc, exists_and_left, exists_eq_left, reduceCtorEq, false_and, exists_false,
      false_or, or_false, Call.transferOwnership.injEq, exists_eq_left', eq_comm (a := self')]
  · simp only [exec, renounceOwnership, bind_eq_ok, mapErr_eq_ok, Ownable.renounceOwnership_eq_ok,
      pure_eq_ok, and_assoc, exists_and_left, exists_eq_left, reduceCtorEq, false_and, exists_false,
      false_or, true_and, eq_comm (a := self')]

end UpgradeableBeacon

/-! ### Storage -/

namespace Beacon

/-- The slots of a storage that beacons and their proxies use. -/
structure Slots where
  /-- `BeaconProxy::beacon`, and `UpgradeableBeacon::implementation` of a beacon. -/
  first : Address
  /-- The owner of a beacon. -/
  second : Address
  /-- The address in `BEACON_SLOT`. -/
  beaconSlot : Address
  deriving DecidableEq, Repr

/-- The storages of all contracts. -/
abbrev Storages := Address → Slots

/-- The storage as code of an `UpgradeableBeacon` sees it. -/
def Slots.upgradeableBeacon (s : Slots) : UpgradeableBeacon := ⟨s.first, ⟨s.second⟩⟩

def Slots.setUpgradeableBeacon (s : Slots) (self : UpgradeableBeacon) : Slots :=
  { s with first := self.implementation, second := self.ownable.owner }

/-- The storage of `this` was changed. -/
def Storages.modify (w : Storages) (this : Address) (f : Slots → Slots) : Storages :=
  Function.update w this (f (w this))

/-- What a function finds around it that runs in the storage of `this`. -/
structure Context where
  /-- `contract::address()`. -/
  this : Address
  /-- `msg::value()`. -/
  value : U256
  hasCode : Address → Bool
  /-- A static call of `implementation()`, with the decoded answer. -/
  implementation : Storages → (target : Address) → Except CallError Address
  /-- `Error::encode` of the SDK. -/
  encode : CallError → Bytes
  /-- A delegated call: the data that it returns and the storages that it leaves, or the data that
  it reverts with. -/
  delegateCall : (target : Address) → (data : Bytes) → Storages → Except Bytes (Bytes × Storages)

end Beacon

/-! ### Setting the beacon of a proxy -/

namespace Erc1967Utils

open Beacon (Storages Context)

section Functions

variable (ctx : Context)

def getBeacon (w : Storages) : Address := (w ctx.this).beaconSlot

/-- An address that is returned is never empty, so `EmptyCode` is not an error here. -/
def getBeaconImplementation (w : Storages) (beacon : Address) : Result Error Address :=
  match ctx.implementation w beacon with
  | .ok implementation => .ok implementation
  | .error e => .err (.ofAddress (AddressUtils.revert e (ctx.encode e)))

def setBeacon (w : Storages) (newBeacon : Address) : Result Error Storages :=
  if !ctx.hasCode newBeacon then .err (.InvalidBeacon newBeacon)
  else do
    let w := w.modify ctx.this ({ · with beaconSlot := newBeacon })
    let beaconImplementation ← getBeaconImplementation ctx w newBeacon
    if !ctx.hasCode beaconImplementation then .err (.InvalidImplementation beaconImplementation)
    else pure w

def upgradeBeaconToAndCall (w : Storages) (newBeacon : Address) (data : Bytes) :
    Result Error Storages := do
  let w ← setBeacon ctx w newBeacon
  if data = [] then
    if ctx.value = 0 then pure w else .err .NonPayable
  else
    let beaconImplementation ← getBeaconImplementation ctx w newBeacon
    let (_, w) ← (AddressUtils.functionDelegateCall ctx.hasCode ctx.delegateCall w
      beaconImplementation data).mapErr Error.ofAddress
    pure w

end Functions

/-- The address of the beacon is in its slot. -/
def announced (ctx : Context) (w : Storages) (beacon : Address) : Storages :=
  w.modify ctx.this ({ · with beaconSlot := beacon })

/-- The beacon has code, and answers with an account with code. -/
structure Answers (ctx : Context) (w : Storages) (beacon implementation : Address) : Prop where
  beacon_code : ctx.hasCode beacon
  answer : ctx.implementation (announced ctx w beacon) beacon = .ok implementation
  implementation_code : ctx.hasCode implementation

variable {ctx : Context} {w w' : Storages} {beacon implementation : Address} {data : Bytes}

theorem getBeaconImplementation_eq_ok : getBeaconImplementation ctx w beacon = .ok implementation ↔
    ctx.implementation w beacon = .ok implementation := by
  rw [getBeaconImplementation]
  cases ctx.implementation w beacon with
  | ok a => simp
  | error e => simp

theorem setBeacon_eq_ok : setBeacon ctx w beacon = .ok w' ↔
    (∃ implementation, Answers ctx w beacon implementation) ∧ w' = announced ctx w beacon := by
  simp only [setBeacon, guard_eq_ok, bind_eq_ok, getBeaconImplementation_eq_ok, pure_eq_ok,
    Bool.not_eq_true', Bool.not_eq_false]
  constructor
  · rintro ⟨hbeacon, implementation, hanswer, himpl, rfl⟩
    exact ⟨⟨implementation, hbeacon, hanswer, himpl⟩, rfl⟩
  · rintro ⟨⟨implementation, h⟩, rfl⟩
    exact ⟨h.beacon_code, implementation, h.answer, h.implementation_code, rfl⟩

/-- The implementation of the beacon is called if there is data to call it with, and no value is
sent otherwise. -/
def SetUpBeacon (ctx : Context) (w : Storages) (implementation : Address) (data : Bytes)
    (w' : Storages) : Prop :=
  (data = [] ∧ ctx.value = 0 ∧ w' = w) ∨
    data ≠ [] ∧ ∃ returndata, ctx.delegateCall implementation data w = .ok (returndata, w')

theorem upgradeBeaconToAndCall_eq_ok : upgradeBeaconToAndCall ctx w beacon data = .ok w' ↔
    ∃ implementation, Answers ctx w beacon implementation ∧
      SetUpBeacon ctx (announced ctx w beacon) implementation data w' := by
  rw [upgradeBeaconToAndCall, bind_eq_ok]
  by_cases hdata : data = []
  · simp only [setBeacon_eq_ok, hdata, ↓reduceIte, guard_not_eq_ok, pure_eq_ok, SetUpBeacon, ne_eq,
      not_true_eq_false, true_and, false_and, or_false, eq_comm (a := w')]
    constructor
    · rintro ⟨w₁, ⟨⟨implementation, h⟩, rfl⟩, hvalue, hw⟩
      exact ⟨implementation, h, hvalue, hw⟩
    · rintro ⟨implementation, h, hvalue, hw⟩
      exact ⟨_, ⟨⟨implementation, h⟩, rfl⟩, hvalue, hw⟩
  · simp only [setBeacon_eq_ok, hdata, ↓reduceIte, SetUpBeacon, false_and, false_or, ne_eq,
      not_false_eq_true, true_and, bind_eq_ok, getBeaconImplementation_eq_ok, mapErr_eq_ok,
      pure_eq_ok, Prod.exists, exists_eq_right]
    constructor
    · rintro ⟨w₁, ⟨⟨implementation, h⟩, rfl⟩, implementation', hanswer, returndata, hcall⟩
      obtain rfl := Except.ok.inj (h.answer.symm.trans hanswer)
      exact ⟨implementation, h, returndata, AddressUtils.verifyCallResultFromTarget_eq_ok hcall⟩
    · rintro ⟨implementation, h, returndata, hcall⟩
      refine ⟨_, ⟨⟨implementation, h⟩, rfl⟩, implementation, h.answer, returndata, ?_⟩
      rw [AddressUtils.functionDelegateCall, hcall, AddressUtils.verifyCallResultFromTarget,
        h.implementation_code]
      simp

end Erc1967Utils

namespace BeaconProxy

open Beacon (Storages Context)

section Functions

variable (ctx : Context)

/-- The constructor of a proxy, which runs in its own storage. -/
def constructor (w : Storages) (beacon : Address) (data : Bytes) :
    Result Erc1967Utils.Error Storages := do
  let w ← Erc1967Utils.upgradeBeaconToAndCall ctx w beacon data
  pure (w.modify ctx.this ({ · with first := beacon }))

def getBeacon (w : Storages) : Address := (w ctx.this).first

/-- The address that calls of the proxy are delegated to. -/
def implementation (w : Storages) : Except Bytes Address :=
  (ctx.implementation w (getBeacon ctx w)).mapError ctx.encode

/-- `IProxy::do_fallback`. -/
def doFallback (w : Storages) (calldata : Bytes) : Except Bytes (Bytes × Storages) := do
  let implementation ← implementation ctx w
  ctx.delegateCall implementation calldata w

end Functions

variable {ctx : Context} {w w' : Storages} {beacon : Address} {data : Bytes}

/-- **A proxy is deployed** for a beacon with code that answers with an account with code, which
sets the proxy up if there is data. Whatever that does, the proxy is one of the given beacon. -/
theorem constructor_eq_ok : constructor ctx w beacon data = .ok w' ↔
    ∃ implementation w₁, Erc1967Utils.Answers ctx w beacon implementation ∧
      Erc1967Utils.SetUpBeacon ctx (Erc1967Utils.announced ctx w beacon) implementation data w₁ ∧
      w' = w₁.modify ctx.this ({ · with first := beacon }) := by
  simp only [constructor, bind_eq_ok, Erc1967Utils.upgradeBeaconToAndCall_eq_ok, pure_eq_ok,
    eq_comm (a := w')]
  constructor
  · rintro ⟨w₁, ⟨implementation, h, hsetup⟩, rfl⟩
    exact ⟨implementation, w₁, h, hsetup, rfl⟩
  · rintro ⟨implementation, w₁, h, hsetup, rfl⟩
    exact ⟨w₁, ⟨implementation, h, hsetup⟩, rfl⟩

end BeaconProxy

end ContractsStylus
