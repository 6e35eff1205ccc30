import ContractsStylus.Utils.Abi

/-!
# ECDSA

Recovering the signer of a message from its hash and a signature. The `ecRecover` precompile is a
parameter, as what a static call of an address answers to some data.

The precompile answers with a word or with nothing, and the source slices that answer without
looking at its length: a short one makes it panic, which is modelled. An account that recovers is
never the zero address, whatever the precompile answers; this is all that the users of signatures
here rely on.
-/

namespace ContractsStylus

namespace Ecdsa

inductive Error
  | InvalidSignature
  | InvalidSignatureS (s : B256)
  deriving DecidableEq, Repr

/-- Address of the `ecrecover` EVM precompile. -/
def ECRECOVER_ADDR : Address := 1

/-- Upper range for `s` value from the signature. -/
def SIGNATURE_S_UPPER_BOUND : U256 :=
  0x7FFFFFFFFFFFFFFFFFFFFFFFFFFFFFFF5D576E7357A4501DDFE92F46681B20A0

/-- `call::static_call`. -/
abbrev StaticCall := Address → Bytes → Except Bytes Bytes

/-- Only signatures with `s` in the lower half order are accepted. -/
def checkIfMalleable (s : B256) : Result Error Unit :=
  if s > SIGNATURE_S_UPPER_BOUND then .err (.InvalidSignatureS s) else .ok ()

def encodeCalldata (hash : B256) (v : U8) (r s : B256) : Bytes :=
  Abi.abiEncode [hash, v.setWidth 256, r, s]

/-- `Address::from_slice`, which panics if there are not 20 bytes. -/
def addressFromSlice {ε : Type} (bytes : Bytes) : Result ε Address :=
  if bytes.length = 20 then .ok (bytes.foldl (fun a b => (a <<< 8) ||| b.setWidth 160) 0)
  else .panic "source slice length does not match destination"

def _recover (staticCall : StaticCall) (hash : B256) (v : U8) (r s : B256) :
    Result Error Address :=
  let calldata := encodeCalldata hash v r s
  if v = 0 ∨ v = 1 then .err .InvalidSignature
  else do
    let recovered ← expect (staticCall ECRECOVER_ADDR calldata).toOption
      "should call `ecRecover` precompile"
    -- `recovered[12..]`
    let slice ← (if 12 ≤ recovered.length then .ok (recovered.drop 12)
      else .panic "range start index out of range")
    let recovered ← addressFromSlice slice
    if recovered = 0 then .err .InvalidSignature else .ok recovered

/-- The address that signed `hash`. -/
def recover (staticCall : StaticCall) (hash : B256) (v : U8) (r s : B256) :
    Result Error Address := do
  checkIfMalleable s
  _recover staticCall hash v r s

/-- **A signer is not the zero address.** -/
theorem recover_ne_zero {staticCall : StaticCall} {hash r s : B256} {v : U8} {signer : Address}
    (h : recover staticCall hash v r s = .ok signer) : signer ≠ 0 := by
  obtain ⟨_, -, h⟩ := bind_eq_ok.mp h
  obtain ⟨-, h⟩ := guard_eq_ok.mp h
  obtain ⟨recovered, -, h⟩ := bind_eq_ok.mp h
  obtain ⟨slice, -, h⟩ := bind_eq_ok.mp h
  obtain ⟨account, -, h⟩ := bind_eq_ok.mp h
  obtain ⟨hne, h⟩ := guard_eq_ok.mp h
  obtain rfl := Except.ok.inj h
  exact hne

end Ecdsa

end ContractsStylus
