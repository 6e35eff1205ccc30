import ContractsStylus.Primitives

/-!
# Delegated calls

`AddressUtils`, which runs the code of another contract on the storage of the calling one and says
what went wrong when that fails. An account without code answers with nothing and does nothing, and
that is an error too.

What a delegated call returns, or the data that it reverts with, is what the SDK returns. The SDK
has a second way to fail, for answers that it cannot decode, and `revert` covers both: it is used
for delegated calls here, and for the calls with decoded answers by the proxies of beacons.

## Empty answers

A call of an account without code succeeds and answers with no data. The source tells this from a
contract that answers with no data by asking for the code, and the order of the two questions is
kept: code is asked for only if the answer is empty.

## Main definitions

* `AddressUtils.Error`
* `AddressUtils.verifyCallResultFromTarget`, `AddressUtils.functionDelegateCall`
-/

namespace ContractsStylus

namespace AddressUtils

inductive Error
  | EmptyCode (target : Address)
  | FailedCall
  | FailedCallWithReason (reason : Bytes)
  deriving DecidableEq, Repr

/-- The error for a call that fails, with what the SDK encodes the failure to. -/
def revert (error : CallError) (encoded : Bytes) : Error :=
  if error = .Revert [] then .FailedCall else .FailedCallWithReason encoded

section Calls

variable {σ : Type}

def verifyCallResultFromTarget (hasCode : Address → Bool) (target : Address)
    (result : Except Bytes (Bytes × σ)) : Result Error (Bytes × σ) :=
  match result with
  | .ok (returndata, s) =>
    if returndata = [] ∧ !hasCode target then .err (.EmptyCode target) else .ok (returndata, s)
  | .error data => .err (revert (.Revert data) data)

/-- Run the code of `target` with the calldata `data`. -/
def functionDelegateCall (hasCode : Address → Bool)
    (delegateCall : Address → Bytes → σ → Except Bytes (Bytes × σ)) (s : σ) (target : Address)
    (data : Bytes) : Result Error (Bytes × σ) :=
  verifyCallResultFromTarget hasCode target (delegateCall target data s)

variable {hasCode : Address → Bool} {target : Address}

/-- A result that is passed on is a result of the call. -/
theorem verifyCallResultFromTarget_eq_ok {result : Except Bytes (Bytes × σ)} {answer : Bytes × σ}
    (h : verifyCallResultFromTarget hasCode target result = .ok answer) : result = .ok answer := by
  match result with
  | .ok (returndata, s) => exact congrArg Except.ok (Except.ok.inj (guard_eq_ok.mp h).2)
  | .error e => exact absurd h err_ne_ok

end Calls

end AddressUtils

end ContractsStylus
