import ContractsStylus.Library.Frames
import ContractsStylus.Proxy.UUPSUpgradeable

/-!
# Chains of proxies and implementations

A chain of contracts: implementations built on `UUPSUpgradeable`, each with its own version, proxies
in front of them, and others. Whoever is called runs code in some storage, and such a frame can call
anybody, upgrade the proxy whose storage it runs in if its code is an implementation, and do as it
likes if its code is unknown.

## Frames

What runs is not a contract but a frame: code of one account in the storage of another. Whether code
was called directly or through a proxy is told by a flag in that storage, so both accounts are parts
of a frame, and a delegated call changes the code only.

Code that is not modelled is not restricted either. It may write any storage it runs in, delegate
wherever it likes and answer whatever it wants, with one exception: it does not answer
`proxiableUUID()` with the slot of implementations, which would make it pass for one. The functions
are not told who they were called by, because none of them asks.

A frame that calls gives control away until the call returns. `exec` takes what happens meanwhile
as a callback, and runs are those of `Reentrant`.

## Main definitions

* `UUPSUpgradeable.Code`, `UUPSUpgradeable.Chain`, `UUPSUpgradeable.Frame`
* `Chain.route` — a call of the code of a frame
* `Chain.context` — what an implementation finds around it
* `Chain.exec` — what a frame can do

## Main results

* `Chain.exec_cases` — what can have been done
-/

namespace ContractsStylus

namespace UUPSUpgradeable

open Erc1967Utils (IMPLEMENTATION_SLOT)
open Reentrant (Callback)

/-- The code of an account. -/
inductive Code
  /-- An implementation built on `UUPSUpgradeable`, with its `VERSION_NUMBER`. -/
  | uups (versionNumber : U32)
  /-- An `Erc1967Proxy`. -/
  | proxy
  /-- Another contract, with its answers to `proxiableUUID()`. -/
  | other (proxiableUUID : World → Option B256)
  /-- No code. -/
  | none

/-- Where the code of a running call was taken from, and the storage that it runs in. -/
structure Frame where
  this : Address
  code : Address
  value : U256
  data : Bytes
  deriving DecidableEq, Repr

/-- The accounts of a chain. -/
structure Chain where
  code : Address → Code
  /-- The data that an error of an implementation is returned as. -/
  encode : Error → Bytes
  code_zero : code 0 = .none
  /-- Only implementations say that they are. -/
  other_ne {a : Address} {f : World → Option B256} : code a = .other f →
    ∀ w, f w ≠ some IMPLEMENTATION_SLOT

/-- What a frame does. The last two are for frames with unknown code. -/
inductive Act
  | call (target : Address) (value : U256) (data : Bytes)
  | upgradeToAndCall (newImplementation : Address) (data : Bytes)
  | setVersion
  | delegate (target : Address) (data : Bytes)
  | write (s : ProxyStorage)

namespace Chain

section Functions

variable (X : Chain)

def hasCode (a : Address) : Bool :=
  match X.code a with
  | .none => false
  | _ => true

def revertData : Revert Error → Bytes
  | .err e => X.encode e
  | .panic _ => []

/-! ### Calls

A call runs the code of an account in the storage of a frame. The functions of an implementation are
known; what unknown code does is up to the frame that it runs in. -/

/-- The code that runs when the code of `a` is called in the storage of `this`. A proxy delegates
to the address in the slot. -/
def runningCode (w : World) (this a : Address) : Address :=
  match X.code a with
  | .proxy => (w this).implementation
  | _ => a

/-- A static call of `proxiableUUID()`. -/
def proxiableUUID (w : World) (target : Address) : Option B256 :=
  match X.code (X.runningCode w target target) with
  | .uups _ => (proxiableUuid (w target)).toOption
  | .other answers => answers w
  | .proxy | .none => none

/-- A call of the code of a frame. The selector of `setVersion()` is looked for; what else the
code does is up to the frame. A proxy that is its own implementation calls itself until that
fails. -/
def route (cb : Callback (Option Frame) World Bytes Bytes) (f : Frame) (w : World) :
    Except Bytes (Bytes × World) :=
  let f := { f with code := X.runningCode w f.this f.code }
  match X.code f.code with
  | .uups VERSION_NUMBER =>
    if f.data = setVersionCall then
      match setVersion VERSION_NUMBER (w f.this) with
      | .ok s => .ok ([], Function.update w f.this s)
      | .error e => .error (X.revertData e)
    else cb (some f) w
  | .other _ => cb (some f) w
  | .proxy => .error []
  | .none => .ok ([], w)

/-- What the functions of an implementation find around them in a frame. -/
def context (cb : Callback (Option Frame) World Bytes Bytes) (f : Frame) :
    Context where
  this := f.this
  value := f.value
  hasCode := X.hasCode
  delegateCall target data w := X.route cb { f with code := target, data := data } w
  proxiableUUID := X.proxiableUUID

/-- What a frame does, or somebody outside (`none`) who sends a transaction. -/
def exec : Option Frame → Act → Callback (Option Frame) World Bytes Bytes → World →
    Except Bytes World
  | _, .call target value data, cb, w =>
    (X.route cb ⟨target, target, value, data⟩ w).map Prod.snd
  | some f, .upgradeToAndCall newImplementation data, cb, w =>
    match X.code f.code with
    | .uups VERSION_NUMBER =>
      (upgradeToAndCall VERSION_NUMBER (X.context cb f) w newImplementation data).mapError
        X.revertData
    | _ => .error []
  | some f, .setVersion, _, w =>
    match X.code f.code with
    | .uups VERSION_NUMBER =>
      ((setVersion VERSION_NUMBER (w f.this)).map (Function.update w f.this)).mapError X.revertData
    | _ => .error []
  | some f, .delegate target data, cb, w =>
    match X.code f.code with
    | .other _ => (X.route cb { f with code := target, data := data } w).map Prod.snd
    | _ => .error []
  | some f, .write s, _, w =>
    match X.code f.code with
    | .other _ => .ok (Function.update w f.this s)
    | _ => .error []
  | none, _, _, _ => .error []

end Functions

variable {X : Chain} {w w' : World} {a : Option Frame} {i : Act}
  {cb : Callback (Option Frame) World Bytes Bytes}

/-- **What can have been done**: a call of anybody, by code that is an implementation an upgrade or
a change of the version, and by unknown code a delegated call or a write. -/
theorem exec_cases (h : X.exec a i cb w = .ok w') :
    (∃ target value data returndata,
      X.route cb ⟨target, target, value, data⟩ w = .ok (returndata, w')) ∨
    ∃ f, a = some f ∧
      ((∃ v newImplementation data, X.code f.code = .uups v ∧
          upgradeToAndCall v (X.context cb f) w newImplementation data = .ok w') ∨
        (∃ v s, X.code f.code = .uups v ∧ setVersion v (w f.this) = .ok s ∧
          w' = Function.update w f.this s) ∨
        (∃ answers target data returndata, X.code f.code = .other answers ∧
          X.route cb { f with code := target, data := data } w = .ok (returndata, w')) ∨
        ∃ answers s, X.code f.code = .other answers ∧ w' = Function.update w f.this s) := by
  cases i with
  | call target value data =>
    rw [exec, map_snd_eq_ok] at h
    obtain ⟨returndata, h⟩ := h
    exact Or.inl ⟨target, value, data, returndata, h⟩
  | upgradeToAndCall newImplementation data =>
    cases a with
    | none => exact nomatch h
    | some f =>
      rw [exec] at h
      split at h
      · rename_i v hcode
        exact Or.inr ⟨f, rfl, Or.inl ⟨v, newImplementation, data, hcode, mapError_eq_ok.mp h⟩⟩
      · exact nomatch h
  | setVersion =>
    cases a with
    | none => exact nomatch h
    | some f =>
      rw [exec] at h
      split at h
      · rename_i v hcode
        obtain ⟨s, hs, rfl⟩ := map_eq_ok.mp (mapError_eq_ok.mp h)
        exact Or.inr ⟨f, rfl, Or.inr (Or.inl ⟨v, s, hcode, hs, rfl⟩)⟩
      · exact nomatch h
  | delegate target data =>
    cases a with
    | none => exact nomatch h
    | some f =>
      rw [exec] at h
      split at h
      · rename_i answers hcode
        obtain ⟨returndata, h⟩ := map_snd_eq_ok.mp h
        refine Or.inr ⟨f, rfl, Or.inr (Or.inr (Or.inl ?_))⟩
        exact ⟨answers, target, data, returndata, hcode, h⟩
      · exact nomatch h
  | write s =>
    cases a with
    | none => exact nomatch h
    | some f =>
      rw [exec] at h
      split at h
      · rename_i answers hcode
        obtain rfl := Except.ok.inj h
        exact Or.inr ⟨f, rfl, Or.inr (Or.inr (Or.inr ⟨answers, s, hcode, rfl⟩))⟩
      · exact nomatch h

end Chain

end UUPSUpgradeable

end ContractsStylus
