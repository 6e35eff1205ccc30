import ContractsStylus.Utils.Address

/-!
# Erc1967

The slot in which a proxy keeps the address of its implementation, and how it is written: the new
implementation has to be a contract, and may be called with the storage of the proxy to set itself
up. `Erc1967Proxy` does that when it is deployed.

The functions here run in the storage of whoever delegates to them. So they are given the storages
of all contracts, and the address of the one to work on is a part of their context.

## What a call leaves behind

The call that sets the implementation up runs with the storage of the proxy and may change it, the
slot included. What is known after an upgrade is therefore what was true when the slot was written,
and that the call succeeded from there; `SetUp` states that much and no more. What the call can have
done is the question of the modules on chains.

## Main definitions

* `ProxyStorage`, `World` — the storage of a contract, and of all of them
* `DelegateContext` — what a function finds around it
* `Erc1967Utils.upgradeToAndCall`, `Erc1967Proxy.constructor`
* `Erc1967Utils.SetUp` — what an upgrade leaves

## Main results

* `Erc1967Utils.upgradeToAndCall_eq_ok` — what an upgrade that succeeds has done
-/

namespace ContractsStylus

/-- The storage of a contract, as far as proxies and their implementations use it. -/
structure ProxyStorage where
  /-- The address in `IMPLEMENTATION_SLOT`. -/
  implementation : Address
  /-- The flag in `LOGIC_FLAG_SLOT`. -/
  logicFlag : Bool
  /-- `UUPSUpgradeable::version`. -/
  version : U32
  deriving DecidableEq, Repr

/-- The storages of all contracts. -/
abbrev World := Address → ProxyStorage

/-- The address in the implementation slot of `this` is changed. -/
def World.setImplementation (w : World) (this newImplementation : Address) : World :=
  Function.update w this { w this with implementation := newImplementation }

@[simp] theorem World.setImplementation_self {w : World} {this newImplementation : Address} :
    w.setImplementation this newImplementation this =
      { w this with implementation := newImplementation } :=
  Function.update_self ..

/-- What a function finds around it that runs in the storage of `this`. -/
structure DelegateContext where
  /-- `contract::address()`. -/
  this : Address
  /-- `msg::value()`. -/
  value : U256
  hasCode : Address → Bool
  /-- A delegated call: the data that it returns and the storages that it leaves, or the data that
  it reverts with. -/
  delegateCall : (target : Address) → (data : Bytes) → World → Except Bytes (Bytes × World)

namespace Erc1967Utils

inductive Error
  | InvalidImplementation (implementation : Address)
  | InvalidAdmin (admin : Address)
  | InvalidBeacon (beacon : Address)
  | NonPayable
  | EmptyCode (target : Address)
  | FailedCall
  | FailedCallWithReason (reason : Bytes)
  deriving DecidableEq, Repr

/-- `From<address::Error>`. -/
def Error.ofAddress : AddressUtils.Error → Error
  | .EmptyCode target => .EmptyCode target
  | .FailedCall => .FailedCall
  | .FailedCallWithReason reason => .FailedCallWithReason reason

/-- `keccak256("eip1967.proxy.implementation") - 1`. -/
def IMPLEMENTATION_SLOT : B256 :=
  0x360894a13ba1a3210667c828492db98dca3e2076cc3735a920a3ca505d382bbc

section Functions

variable (ctx : DelegateContext)

def getImplementation (w : World) : Address := (w ctx.this).implementation

def setImplementation (w : World) (newImplementation : Address) : Result Error World :=
  if !ctx.hasCode newImplementation then .err (.InvalidImplementation newImplementation)
  else .ok (w.setImplementation ctx.this newImplementation)

def checkNonPayable : Result Error Unit :=
  if ctx.value = 0 then .ok () else .err .NonPayable

def upgradeToAndCall (w : World) (newImplementation : Address) (data : Bytes) :
    Result Error World := do
  let w ← setImplementation ctx w newImplementation
  if data = [] then
    checkNonPayable ctx
    pure w
  else
    let (_, w) ← (AddressUtils.functionDelegateCall ctx.hasCode ctx.delegateCall w
      newImplementation data).mapErr Error.ofAddress
    pure w

end Functions

/-- The slot was written, and the new implementation was called if there was data to call it
with. -/
def SetUp (ctx : DelegateContext) (w : World) (newImplementation : Address) (data : Bytes)
    (w' : World) : Prop :=
  (data = [] ∧ w' = w.setImplementation ctx.this newImplementation) ∨
    ∃ returndata, ctx.delegateCall newImplementation data
      (w.setImplementation ctx.this newImplementation) = .ok (returndata, w')

variable {ctx : DelegateContext} {w w' : World} {newImplementation : Address} {data : Bytes}

/-- What an upgrade that succeeds has done. -/
theorem upgradeToAndCall_eq_ok (h : upgradeToAndCall ctx w newImplementation data = .ok w') :
    ctx.hasCode newImplementation ∧ SetUp ctx w newImplementation data w' := by
  rw [upgradeToAndCall, bind_eq_ok] at h
  obtain ⟨w₁, hset, h⟩ := h
  rw [setImplementation, guard_eq_ok] at hset
  obtain ⟨hcode, hset⟩ := hset
  obtain rfl := Except.ok.inj hset
  refine ⟨by simpa using hcode, ?_⟩
  by_cases hdata : data = []
  · rw [if_pos hdata, bind_eq_ok] at h
    obtain ⟨-, -, h⟩ := h
    exact Or.inl ⟨hdata, (pure_eq_ok.mp h).symm⟩
  · rw [if_neg hdata, bind_eq_ok] at h
    obtain ⟨⟨returndata, w₂⟩, hcall, h⟩ := h
    obtain rfl := pure_eq_ok.mp h
    exact Or.inr ⟨returndata,
      AddressUtils.verifyCallResultFromTarget_eq_ok (mapErr_eq_ok.mp hcall)⟩

/-- Only the call of the new implementation depends on what is called. -/
theorem upgradeToAndCall_congr {d : Address → Bytes → World → Except Bytes (Bytes × World)}
    (h : ctx.hasCode newImplementation →
      ctx.delegateCall newImplementation data (w.setImplementation ctx.this newImplementation) =
        d newImplementation data (w.setImplementation ctx.this newImplementation)) :
    upgradeToAndCall ctx w newImplementation data =
      upgradeToAndCall { ctx with delegateCall := d } w newImplementation data := by
  rw [upgradeToAndCall, upgradeToAndCall, setImplementation, setImplementation]
  dsimp only
  cases hcode : ctx.hasCode newImplementation with
  | false => rfl
  | true =>
    simp only [Bool.not_true, Bool.false_eq_true, if_false, ok_bind,
      AddressUtils.functionDelegateCall, checkNonPayable, h hcode]

end Erc1967Utils

namespace Erc1967Proxy

/-- The constructor of a proxy, which runs in its own storage. -/
def constructor (ctx : DelegateContext) (w : World) (implementation : Address) (data : Bytes) :
    Result Erc1967Utils.Error World :=
  Erc1967Utils.upgradeToAndCall ctx w implementation data

/-- The address that calls of a proxy are delegated to. -/
def implementation (ctx : DelegateContext) (w : World) : Address :=
  Erc1967Utils.getImplementation ctx w

end Erc1967Proxy

end ContractsStylus
