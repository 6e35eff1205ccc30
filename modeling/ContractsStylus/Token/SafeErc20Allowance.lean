import ContractsStylus.Library.InPlace
import ContractsStylus.Token.SafeErc20

/-!
# Allowances that a contract gives

The allowance operations of `SafeErc20`, on a token whose `approve` sets the allowance or fails
without effect. Some such tokens do not let an allowance change from one number that is not zero to
another, so `force_approve` sets it to zero first where the change is refused. That is up to three
calls, and what a refused call leaves is seen by the next one; the state is written in place here.

Recording every state that a call leaves changes nothing of what the operations do. So they can be
run with a record of these states, and what holds of all of them holds at every point between two
calls.

## Up to three calls

`force_approve` tries to set the allowance, and if that fails sets it to zero and tries again. A
refused call is not an error of the contract, so what it leaves behind is there when the next one is
made; this is why the operations are in place. Whether a call was refused is decided by its answer,
and what it did by its state. For a token that `Approves`, a call that is not answered with success
has had no effect, and only for such tokens can anything be said.

A decrease below zero fails before any call, with an error that names what was there, and an
increase past the largest word panics.

## Main definitions

* `SafeErc20.forceApprove`, `safeIncreaseAllowance`, `safeDecreaseAllowance`
* `AllowanceTokens.Approves` — a token whose `approve` sets the allowance or fails without effect
* `AllowanceTokens.recorded` — tokens that remember the states they have been in
* `ForceApproveMock` — a token that refuses changes between numbers that are not zero

## Main results

* `SafeErc20.result_callOptionalReturnInPlace` — what can be seen of a call from outside
* `SafeErc20.AllowanceOp.exec_projects` — a record changes nothing of what the operations do
* `SafeErc20.allowance_exact` — the operations leave exactly the allowance they are to leave
-/

namespace ContractsStylus

/-- The other contracts, with the allowances they report. -/
structure AllowanceTokens (τ : Type) extends Tokens τ where
  /-- `Erc20Interface::new(token).allowance(owner, spender)`. -/
  allowance : τ → (token owner spender : Address) → Except CallError U256

namespace SafeErc20

/-! ### The operations -/

section Operations

variable {τ : Type}

/-- `call_optional_return`, with what the call leaves when its answer is not a success. -/
def callOptionalReturnInPlace (T : Tokens τ) (this token : Address) (call : Erc20.Call) :
    InPlace τ (Revert Error) Unit := do
  let t ← get
  if !T.hasCode t token then throw (.err (.SafeErc20FailedOperation token))
  else match T.call t this token call with
    | .ok (data, t) => do
      set t
      if isSuccess data then pure () else throw (.err (.SafeErc20FailedOperation token))
    | .error _ => throw (.err (.SafeErc20FailedOperation token))

def allowance (T : AllowanceTokens τ) (this token spender : Address) :
    InPlace τ (Revert Error) U256 := do
  let t ← get
  if !T.hasCode t token then throw (.err (.SafeErc20FailedOperation token))
  else match T.allowance t token this spender with
    | .ok currentAllowance => pure currentAllowance
    | .error _ => throw (.err (.SafeErc20FailedOperation token))

def forceApprove (T : Tokens τ) (this token spender : Address) (value : U256) :
    InPlace τ (Revert Error) Unit := do
  match ← (callOptionalReturnInPlace T this token (.approve spender value)).attempt with
  | .ok _ => pure ()
  | .error (.panic msg) => throw (.panic msg)
  | .error (.err _) => do
    -- Reset the allowance to zero, then retry.
    callOptionalReturnInPlace T this token (.approve spender 0)
    callOptionalReturnInPlace T this token (.approve spender value)

def safeIncreaseAllowance (T : AllowanceTokens τ) (this token spender : Address) (value : U256) :
    InPlace τ (Revert Error) Unit := do
  let currentAllowance ← allowance T this token spender
  let newAllowance ← .ofExcept (expect (checkedAdd currentAllowance value)
    "should not exceed `U256::MAX` for allowance")
  forceApprove T.toTokens this token spender newAllowance

def safeDecreaseAllowance (T : AllowanceTokens τ) (this token spender : Address)
    (requestedDecrease : U256) : InPlace τ (Revert Error) Unit := do
  let currentAllowance ← allowance T this token spender
  if currentAllowance < requestedDecrease then
    throw (.err (.SafeErc20FailedDecreaseAllowance spender currentAllowance requestedDecrease))
  else forceApprove T.toTokens this token spender (currentAllowance - requestedDecrease)

/-- The allowance operations of the interface. -/
inductive AllowanceOp
  | forceApprove
  | safeIncreaseAllowance
  | safeDecreaseAllowance

namespace AllowanceOp

def exec (T : AllowanceTokens τ) (this token spender : Address) (value : U256) :
    AllowanceOp → InPlace τ (Revert Error) Unit
  | .forceApprove => SafeErc20.forceApprove T.toTokens this token spender value
  | .safeIncreaseAllowance => SafeErc20.safeIncreaseAllowance T this token spender value
  | .safeDecreaseAllowance => SafeErc20.safeDecreaseAllowance T this token spender value

/-- The allowance that an operation is to leave. -/
def intended (old value : ℕ) : AllowanceOp → ℕ
  | .forceApprove => value
  | .safeIncreaseAllowance => old + value
  | .safeDecreaseAllowance => old - value

end AllowanceOp

end Operations

/-! ### One call

There are two models of a call: one that gives the new state or fails, for functions that propagate
what fails, and one in place, for those that go on. The first is what can be seen of the second. -/

/-- An answer that stands for a success: nothing at all, or a word that is read as `true`. -/
def Success (data : Bytes) : Prop :=
  data = [] ∨ ∃ b : U8, b ≠ 0 ∧ List.replicate 31 0 ++ [b] <+: data

theorem isSuccess_iff {data : Bytes} : isSuccess data ↔ Success data := by
  have hempty : (data.take BOOL_TYPE_SIZE).isEmpty ↔ data = [] := by
    simp [BOOL_TYPE_SIZE]
  have hword : ∀ b : U8, data.take BOOL_TYPE_SIZE = List.replicate 31 0 ++ [b] ↔
      List.replicate 31 0 ++ [b] <+: data := by
    intro b
    rw [List.prefix_iff_eq_take, eq_comm]
    simp [BOOL_TYPE_SIZE]
  rw [isSuccess, Bool.or_eq_true, hempty, decide_eq_true_iff, boolAbiDecode_eq_true, Success]
  simp only [hword]

theorem success_boolAbiEncode_true : Success (boolAbiEncode true) :=
  .inr ⟨1, by decide, List.prefix_refl _⟩

section Call

variable {τ : Type} {T : Tokens τ} {this token : Address} {call : Erc20.Call} {t t' : τ}

/-- **What can be seen** of a call is the function that gives the new state or fails. -/
theorem result_callOptionalReturnInPlace :
    (callOptionalReturnInPlace T this token call).result t =
      callOptionalReturn T this t token call := by
  rw [callOptionalReturnInPlace, InPlace.result_get_bind, callOptionalReturn, InPlace.result_ite]
  refine congrArg (ite _ _) ?_
  rcases T.call t this token call with data | ⟨data, s⟩
  · rfl
  · by_cases hdata : isSuccess data <;> simp only [hdata, if_true] <;> rfl

/-- A call fails and leaves nothing, or it is answered, and the answer decides. -/
theorem exec_callOptionalReturnInPlace (T : Tokens τ) (this token : Address) (call : Erc20.Call)
    (t : τ) :
    (callOptionalReturnInPlace T this token call).exec t =
        (.error (.err (.SafeErc20FailedOperation token)), t) ∨
      ∃ data t', T.call t this token call = .ok (data, t') ∧
        (callOptionalReturnInPlace T this token call).exec t =
          (if isSuccess data then .ok () else .error (.err (.SafeErc20FailedOperation token)),
            t') := by
  rw [callOptionalReturnInPlace, InPlace.exec_get_bind]
  by_cases hcode : T.hasCode t token
  · rw [hcode]
    rcases T.call t this token call with data | ⟨data, s⟩
    · exact .inl rfl
    · refine .inr ⟨data, s, rfl, ?_⟩
      by_cases hdata : isSuccess data <;> simp only [hdata, if_true] <;> rfl
  · simp only [hcode]
    exact .inl rfl

/-- What every answered call keeps is kept, also when the answer is no success. -/
theorem callOptionalReturnInPlace_keeps {Inv : τ → Prop}
    (h : ∀ t t' data, Inv t → T.call t this token call = .ok (data, t') → Inv t') :
    (callOptionalReturnInPlace T this token call).Keeps Inv := by
  intro t ht
  rcases exec_callOptionalReturnInPlace T this token call t with hexec | ⟨data, t', hcall, hexec⟩
  · rw [hexec]
    exact ht
  · rw [hexec]
    exact h t t' data ht hcall

/-- A call fails in one way. -/
theorem callOptionalReturnInPlace_error {e : Revert Error}
    (h : ((callOptionalReturnInPlace T this token call).exec t).1 = .error e) :
    e = .err (.SafeErc20FailedOperation token) := by
  rcases exec_callOptionalReturnInPlace T this token call t with hexec | ⟨data, t', -, hexec⟩
  · rw [hexec] at h
    exact (Except.error.inj h).symm
  · rw [hexec] at h
    split at h
    · exact absurd h nofun
    · exact (Except.error.inj h).symm

/-- `force_approve` fails in one way. -/
theorem forceApprove_error {spender : Address} {value : U256} {e : Revert Error}
    (h : ((forceApprove T this token spender value).exec t).1 = .error e) :
    e = .err (.SafeErc20FailedOperation token) := by
  rw [forceApprove, InPlace.exec_bind, InPlace.exec_attempt] at h
  rcases hfirst : ((callOptionalReturnInPlace T this token (.approve spender value)).exec t).1
    with e' | u
  · obtain rfl := callOptionalReturnInPlace_error hfirst
    simp only [hfirst] at h
    rcases InPlace.exec_bind_eq_error h with h | ⟨-, s, h⟩
    · exact callOptionalReturnInPlace_error h
    · exact callOptionalReturnInPlace_error h
  · simp only [hfirst] at h
    exact absurd h nofun

theorem forceApprove_keeps {Inv : τ → Prop} {spender : Address} {value : U256}
    (hvalue : (callOptionalReturnInPlace T this token (.approve spender value)).Keeps Inv)
    (hzero : (callOptionalReturnInPlace T this token (.approve spender 0)).Keeps Inv) :
    (forceApprove T this token spender value).Keeps Inv := by
  refine hvalue.attempt.bind fun outcome => ?_
  match outcome with
  | .ok _ => exact .of_reads fun _ => rfl
  | .error (.panic _) => exact .of_reads fun _ => rfl
  | .error (.err _) => exact hzero.bind fun _ => hvalue

end Call

section Read

variable {τ : Type} {T : AllowanceTokens τ} {this token spender : Address} {value current : U256}
  {t : τ}

theorem exec_allowance (hcode : T.hasCode t token)
    (h : T.allowance t token this spender = .ok current) :
    (allowance T this token spender).exec t = (.ok current, t) := by
  rw [allowance, InPlace.exec_get_bind, hcode, h]
  rfl

/-- `safe_increase_allowance` is a `force_approve`, of a sum that fits its type. -/
theorem exec_safeIncreaseAllowance
    (h : (allowance T this token spender).exec t = (.ok current, t)) :
    (∃ newAllowance : U256, newAllowance.toNat = current.toNat + value.toNat ∧
      (safeIncreaseAllowance T this token spender value).exec t =
        (forceApprove T.toTokens this token spender newAllowance).exec t) ∨
      (safeIncreaseAllowance T this token spender value).exec t =
        (.error (.panic "should not exceed `U256::MAX` for allowance"), t) := by
  rw [safeIncreaseAllowance, InPlace.exec_bind_of_ok h]
  rcases hsum : checkedAdd current value with _ | newAllowance
  · exact .inr rfl
  · exact .inl ⟨newAllowance, checkedAdd_eq_some.mp hsum, rfl⟩

/-- `safe_decrease_allowance` is a `force_approve`, of a difference that is not negative. -/
theorem exec_safeDecreaseAllowance
    (h : (allowance T this token spender).exec t = (.ok current, t)) :
    (safeDecreaseAllowance T this token spender value).exec t =
      if current < value then
        (.error (.err (.SafeErc20FailedDecreaseAllowance spender current value)), t)
      else (forceApprove T.toTokens this token spender (current - value)).exec t := by
  rw [safeDecreaseAllowance, InPlace.exec_bind_of_ok h]
  split <;> rfl

end Read

end SafeErc20

/-! ### Tokens whose `approve` is exact or does nothing

What is asked of a token is asked of the calls of one sender only, and says nothing about which
calls are refused. `Accepts` names those that are taken, and what `force_approve` does follows from
the calls that it may make, of which there are up to three. -/

section Approves

variable {τ : Type}

/-- `token` takes the call of `this` for good, with an answer that stands for a success. -/
def Tokens.Accepts (T : Tokens τ) (this token : Address) (t : τ) (call : Erc20.Call) (t' : τ) :
    Prop :=
  ∃ data, T.call t this token call = .ok (data, t') ∧ SafeErc20.Success data

/-- A token whose `approve`, sent by `this`, sets the allowance exactly or fails without effect,
and which reports its allowances. Which calls it takes is up to the token. -/
structure AllowanceTokens.Approves (T : AllowanceTokens τ) (this token : Address)
    (allowed : τ → Address → U256) : Prop where
  hasCode : ∀ t, T.hasCode t token
  allowance_eq : ∀ t spender, T.allowance t token this spender = .ok (allowed t spender)
  sets : ∀ {t t' spender value}, T.Accepts this token t (.approve spender value) t' →
    allowed t' spender = value
  /-- It answers with `false`, or with what is no boolean. A token that reverts has no effect. -/
  fails : ∀ {t t' spender value data}, T.call t this token (.approve spender value) =
    .ok (data, t') → ¬SafeErc20.Success data → t' = t

namespace AllowanceTokens.Approves

open SafeErc20

variable {T : AllowanceTokens τ} {this token spender : Address} {allowed : τ → Address → U256}
  {value : U256} {t t' : τ}

theorem exec_of_accepts (hT : T.Approves this token allowed) {call : Erc20.Call}
    (h : T.Accepts this token t call t') :
    (callOptionalReturnInPlace T.toTokens this token call).exec t = (.ok (), t') := by
  obtain ⟨data, hcall, hdata⟩ := h
  rw [← InPlace.result_eq_ok, result_callOptionalReturnInPlace, callOptionalReturn, hT.hasCode t,
    hcall]
  simp only [isSuccess_iff.mpr hdata, if_true]
  rfl

/-- One `approve` is taken, or it fails without effect. -/
theorem exec_approve (hT : T.Approves this token allowed) (t : τ) (spender : Address)
    (value : U256) :
    (∃ t', T.Accepts this token t (.approve spender value) t' ∧
      (callOptionalReturnInPlace T.toTokens this token (.approve spender value)).exec t =
        (.ok (), t')) ∨
      (callOptionalReturnInPlace T.toTokens this token (.approve spender value)).exec t =
        (.error (.err (.SafeErc20FailedOperation token)), t) := by
  rcases exec_callOptionalReturnInPlace T.toTokens this token (.approve spender value) t
    with hexec | ⟨data, t', hcall, hexec⟩
  · exact .inr hexec
  · rw [hexec]
    by_cases hdata : isSuccess data
    · rw [if_pos hdata]
      exact .inl ⟨t', ⟨data, hcall, isSuccess_iff.mp hdata⟩, rfl⟩
    · rw [if_neg hdata, hT.fails hcall (mt isSuccess_iff.mpr hdata)]
      exact .inr rfl

/-- An `approve` that succeeds was taken. -/
theorem sets_of_exec (hT : T.Approves this token allowed)
    (h : (callOptionalReturnInPlace T.toTokens this token (.approve spender value)).exec t =
      (.ok (), t')) : allowed t' spender = value := by
  rw [← InPlace.result_eq_ok, result_callOptionalReturnInPlace] at h
  obtain ⟨data, hcall, hdata⟩ := callOptionalReturn_eq_ok h
  exact hT.sets ⟨data, hcall, isSuccess_iff.mp hdata⟩

/-- **The calls that `force_approve` makes**: one that is taken, or two more after it. -/
theorem exec_forceApprove (hT : T.Approves this token allowed) (t : τ) (spender : Address)
    (value : U256) :
    (∃ t', allowed t' spender = value ∧
      (forceApprove T.toTokens this token spender value).exec t = (.ok (), t')) ∨
      (forceApprove T.toTokens this token spender value).exec t =
        (callOptionalReturnInPlace T.toTokens this token (.approve spender 0) >>= fun _ =>
          callOptionalReturnInPlace T.toTokens this token (.approve spender value)).exec t := by
  rw [forceApprove, InPlace.exec_bind, InPlace.exec_attempt]
  rcases hT.exec_approve t spender value with ⟨t', ht', hexec⟩ | hexec
  · rw [hexec]
    exact .inl ⟨t', hT.sets ht', rfl⟩
  · rw [hexec]
    exact .inr rfl

/-- **A `force_approve` that succeeds** leaves the allowance it is given. -/
theorem forceApprove_sets (hT : T.Approves this token allowed)
    (h : (forceApprove T.toTokens this token spender value).exec t = (.ok (), t')) :
    allowed t' spender = value := by
  rcases hT.exec_forceApprove t spender value with ⟨s, hs, hexec⟩ | hexec
  · obtain rfl : s = t' := congrArg Prod.snd (hexec.symm.trans h)
    exact hs
  · obtain ⟨-, s, -, hsecond⟩ := InPlace.exec_bind_eq_ok (hexec.symm.trans h)
    exact hT.sets_of_exec hsecond

/-- **It succeeds** where the token takes the change in two steps. -/
theorem forceApprove_succeeds (hT : T.Approves this token allowed) {t₁ t₂ : τ}
    (hzero : T.Accepts this token t (.approve spender 0) t₁)
    (hvalue : T.Accepts this token t₁ (.approve spender value) t₂) :
    ∃ t', (forceApprove T.toTokens this token spender value).exec t = (.ok (), t') := by
  rcases hT.exec_forceApprove t spender value with ⟨t', -, hexec⟩ | hexec
  · exact ⟨t', hexec⟩
  · refine ⟨t₂, hexec.trans ?_⟩
    rw [InPlace.exec_bind_of_ok (hT.exec_of_accepts hzero)]
    exact hT.exec_of_accepts hvalue

theorem exec_allowance (hT : T.Approves this token allowed) (t : τ) (spender : Address) :
    (SafeErc20.allowance T this token spender).exec t = (.ok (allowed t spender), t) :=
  SafeErc20.exec_allowance (hT.hasCode t) (hT.allowance_eq t spender)

/-- **What an operation leaves** when it succeeds. -/
theorem exec_eq_intended (hT : T.Approves this token allowed) {op : AllowanceOp}
    (h : (op.exec T this token spender value).exec t = (.ok (), t')) :
    (allowed t' spender).toNat = op.intended (allowed t spender).toNat value.toNat := by
  cases op with
  | forceApprove => exact congrArg BitVec.toNat (hT.forceApprove_sets h)
  | safeIncreaseAllowance =>
    rcases exec_safeIncreaseAllowance (hT.exec_allowance t spender)
      with ⟨sum, hsum, hexec⟩ | hexec
    · rw [hT.forceApprove_sets (hexec.symm.trans h)]
      exact hsum
    · exact absurd hexec (InPlace.ok_ne_error h)
  | safeDecreaseAllowance =>
    have hexec := (exec_safeDecreaseAllowance (hT.exec_allowance t spender)).symm.trans h
    split at hexec
    · exact absurd (congrArg Prod.fst hexec) nofun
    · rename_i hle
      rw [hT.forceApprove_sets hexec]
      exact BitVec.toNat_sub_of_le (BitVec.not_lt.mp hle)

/-- **A decrease fails as too large** when it is. -/
theorem safeDecreaseAllowance_error_iff (hT : T.Approves this token allowed) {s : Address}
    {current requested : U256} :
    ((safeDecreaseAllowance T this token spender value).exec t).1 =
        .error (.err (.SafeErc20FailedDecreaseAllowance s current requested)) ↔
      (s = spender ∧ current = allowed t spender ∧ requested = value) ∧
        allowed t spender < value := by
  rw [exec_safeDecreaseAllowance (hT.exec_allowance t spender)]
  split
  · rename_i hlt
    simp only [Except.error.injEq, Revert.err.injEq, Error.SafeErc20FailedDecreaseAllowance.injEq,
      hlt, and_true, eq_comm]
  · rename_i hle
    refine iff_of_false (fun h => ?_) fun h => hle h.2
    have herror := forceApprove_error h
    simp at herror

end AllowanceTokens.Approves

end Approves

/-! ### The states between the calls

The operations know nothing of the record, so they project to the same operations without it. The
invariant is on the recorded states: none has more allowance than the larger of the old and the new
one. -/

section Recorded

variable {τ : Type}

/-- The other contracts, with a record of the states that their calls leave. -/
def Tokens.recorded (T : Tokens τ) : Tokens (τ × List τ) where
  hasCode s := T.hasCode s.1
  balanceOf s := T.balanceOf s.1
  call s sender token c := (T.call s.1 sender token c).map fun r => (r.1, r.2, s.2 ++ [r.2])

theorem Tokens.recorded_hasCode (T : Tokens τ) (s : τ × List τ) (token : Address) :
    T.recorded.hasCode s token = T.hasCode s.1 token := rfl

theorem Tokens.recorded_call (T : Tokens τ) (s : τ × List τ) (sender token : Address)
    (c : Erc20.Call) : T.recorded.call s sender token c =
      (T.call s.1 sender token c).map fun r => (r.1, r.2, s.2 ++ [r.2]) := rfl

def AllowanceTokens.recorded (T : AllowanceTokens τ) : AllowanceTokens (τ × List τ) where
  toTokens := T.toTokens.recorded
  allowance s := T.allowance s.1

theorem AllowanceTokens.recorded_hasCode (T : AllowanceTokens τ) (s : τ × List τ)
    (token : Address) : T.recorded.hasCode s token = T.hasCode s.1 token := rfl

theorem AllowanceTokens.recorded_allowance (T : AllowanceTokens τ) (s : τ × List τ)
    (token owner spender : Address) :
    T.recorded.allowance s token owner spender = T.allowance s.1 token owner spender := rfl

namespace SafeErc20

theorem callOptionalReturnInPlace_projects (T : Tokens τ) (this token : Address)
    (call : Erc20.Call) :
    (callOptionalReturnInPlace T.recorded this token call).Projects Prod.fst
      (callOptionalReturnInPlace T this token call) := by
  intro s
  rw [callOptionalReturnInPlace, callOptionalReturnInPlace, InPlace.exec_get_bind,
    InPlace.exec_get_bind, T.recorded_hasCode, T.recorded_call]
  by_cases hcode : T.hasCode s.1 token
  · rw [hcode]
    rcases T.call s.1 this token call with data | ⟨data, t⟩
    · rfl
    · simp only [Except.map]
      by_cases hdata : isSuccess data <;> simp only [hdata, if_true] <;> rfl
  · simp only [hcode]
    rfl

theorem forceApprove_projects (T : Tokens τ) (this token spender : Address) (value : U256) :
    (forceApprove T.recorded this token spender value).Projects Prod.fst
      (forceApprove T this token spender value) := by
  refine (callOptionalReturnInPlace_projects T this token _).attempt.bind fun outcome => ?_
  match outcome with
  | .ok _ => exact fun _ => rfl
  | .error (.panic _) => exact fun _ => rfl
  | .error (.err _) =>
    exact (callOptionalReturnInPlace_projects T this token _).bind fun _ =>
      callOptionalReturnInPlace_projects T this token _

theorem allowance_projects (T : AllowanceTokens τ) (this token spender : Address) :
    (allowance T.recorded this token spender).Projects Prod.fst
      (allowance T this token spender) := by
  intro s
  rw [allowance, allowance, InPlace.exec_get_bind, InPlace.exec_get_bind, T.recorded_hasCode,
    T.recorded_allowance]
  by_cases hcode : T.hasCode s.1 token
  · rw [hcode]
    rcases T.allowance s.1 token this spender with _ | _ <;> rfl
  · simp only [hcode]
    rfl

/-- **A record changes nothing** of what the operations do. -/
theorem AllowanceOp.exec_projects (T : AllowanceTokens τ) (this token spender : Address)
    (value : U256) (op : AllowanceOp) :
    (op.exec T.recorded this token spender value).Projects Prod.fst
      (op.exec T this token spender value) := by
  cases op with
  | forceApprove => exact forceApprove_projects T.toTokens this token spender value
  | safeIncreaseAllowance =>
    refine (allowance_projects T this token spender).bind fun current => ?_
    exact (InPlace.Projects.refl_ofExcept _).bind fun sum =>
      forceApprove_projects T.toTokens this token spender sum
  | safeDecreaseAllowance =>
    refine (allowance_projects T this token spender).bind fun current => ?_
    split
    · exact fun _ => rfl
    · exact forceApprove_projects T.toTokens this token spender _

end SafeErc20

namespace AllowanceTokens.Approves

open SafeErc20

variable {T : AllowanceTokens τ} {this token spender : Address} {allowed : τ → Address → U256}
  {value : U256} {bound : ℕ}

/-- The allowance of `spender` is no more than `bound`, now and wherever it was recorded. -/
def Within (allowed : τ → Address → U256) (spender : Address) (bound : ℕ) (s : τ × List τ) :
    Prop :=
  ∀ t ∈ s.1 :: s.2, (allowed t spender).toNat ≤ bound

/-- One `approve` leaves the allowance it is given, or the one that was there. -/
theorem approve_keeps_within (hT : T.Approves this token allowed) (hvalue : value.toNat ≤ bound) :
    (callOptionalReturnInPlace T.toTokens.recorded this token (.approve spender value)).Keeps
      (Within allowed spender bound) := by
  refine callOptionalReturnInPlace_keeps fun s s' data hs hrecorded => ?_
  obtain ⟨t', hcall, rfl⟩ : ∃ t', T.call s.1 this token (.approve spender value) =
      .ok (data, t') ∧ (t', s.2 ++ [t']) = s' := by
    rw [Tokens.recorded_call] at hrecorded
    rcases hcall : T.call s.1 this token (.approve spender value) with _ | ⟨data', t'⟩
    · rw [hcall] at hrecorded
      exact absurd hrecorded nofun
    · rw [hcall] at hrecorded
      cases hrecorded
      exact ⟨t', rfl, rfl⟩
  have ht' : (allowed t' spender).toNat ≤ bound := by
    by_cases hdata : Success data
    · rw [hT.sets ⟨data, hcall, hdata⟩]
      exact hvalue
    · rw [hT.fails hcall hdata]
      exact hs s.1 (List.mem_cons_self ..)
  intro t ht
  rw [List.mem_cons, List.mem_append, List.mem_singleton] at ht
  rcases ht with rfl | ht | rfl
  · exact ht'
  · exact hs t (List.mem_cons_of_mem _ ht)
  · exact ht'

theorem forceApprove_keeps_within (hT : T.Approves this token allowed)
    (hvalue : value.toNat ≤ bound) :
    (forceApprove T.toTokens.recorded this token spender value).Keeps
      (Within allowed spender bound) :=
  forceApprove_keeps (hT.approve_keeps_within hvalue) (hT.approve_keeps_within (Nat.zero_le _))

/-- **Between the calls** the allowance is never more than before or after them. -/
theorem exec_within (hT : T.Approves this token allowed) (t : τ) (spender : Address)
    (value : U256) (op : AllowanceOp) :
    Within allowed spender
      (max (allowed t spender).toNat (op.intended (allowed t spender).toNat value.toNat))
      ((op.exec T.recorded this token spender value).exec (t, [])).2 := by
  have hread : (SafeErc20.allowance T.recorded this token spender).exec (t, []) =
      (.ok (allowed t spender), (t, [])) :=
    SafeErc20.exec_allowance (hT.hasCode t) (hT.allowance_eq t spender)
  have hstart : ∀ new, Within allowed spender (max (allowed t spender).toNat new) (t, []) := by
    intro new s hs
    rw [List.mem_singleton.mp hs]
    exact le_max_left _ _
  cases op with
  | forceApprove => exact hT.forceApprove_keeps_within (le_max_right _ _) _ (hstart _)
  | safeIncreaseAllowance =>
    rcases exec_safeIncreaseAllowance hread with ⟨sum, hsum, hexec⟩ | hexec
    · rw [AllowanceOp.exec, hexec]
      exact hT.forceApprove_keeps_within (hsum.le.trans (le_max_right _ _)) _ (hstart _)
    · rw [AllowanceOp.exec, hexec]
      exact hstart _
  | safeDecreaseAllowance =>
    rw [AllowanceOp.exec, exec_safeDecreaseAllowance hread]
    split
    · exact hstart _
    · rename_i hle
      refine hT.forceApprove_keeps_within (le_max_of_le_right ?_) _ (hstart _)
      exact (BitVec.toNat_sub_of_le (BitVec.not_lt.mp hle)).le

end AllowanceTokens.Approves

end Recorded

/-! ### A token that refuses some changes -/

/-- The allowances of `ERC20ForceApproveMock`. -/
abbrev ForceApproveMock := StorageMap Address (StorageMap Address U256)

namespace ForceApproveMock

open SafeErc20

/-- `approve`, which refuses to change one number that is not zero to another. What it reverts with
is read by nobody. -/
def approve (self : ForceApproveMock) (sender spender : Address) (amount : U256) :
    Except Bytes (Bytes × ForceApproveMock) :=
  if ¬(amount = 0 ∨ self sender spender = 0) then .error []
  else if sender = 0 ∨ spender = 0 then .error []
  else .ok (boolAbiEncode true,
    Function.update self sender (Function.update (self sender) spender amount))

/-- The token at the address `token`, in which nobody holds anything. -/
def deployed (token : Address) : AllowanceTokens ForceApproveMock where
  hasCode _ callee := callee = token
  balanceOf _ _ _ := .ok 0
  allowance self callee owner spender :=
    if callee = token then .ok (self owner spender) else .error .AbiDecodingFailed
  call self sender callee c :=
    if callee = token then
      match c with
      | .approve spender value => self.approve sender spender value
      | .transfer .. => .error []
      | .transferFrom .. => .error []
    else .ok ([], self)

theorem approve_eq_ok {self self' : ForceApproveMock} {sender spender : Address} {amount : U256}
    {data : Bytes} (h : self.approve sender spender amount = .ok (data, self')) :
    data = boolAbiEncode true ∧ self' sender spender = amount := by
  rw [approve] at h
  split at h
  · exact absurd h nofun
  · split at h
    · exact absurd h nofun
    · cases h
      exact ⟨rfl, by rw [update_update_apply, if_pos ⟨rfl, rfl⟩]⟩

/-- **It sets the allowance, or it reverts.** -/
theorem deployed_approves (token this : Address) :
    (deployed token).Approves this token fun self spender => self this spender where
  hasCode _ := decide_eq_true rfl
  allowance_eq _ _ := if_pos rfl
  sets := by
    rintro t t' spender value ⟨data, hcall, -⟩
    exact (approve_eq_ok (by simpa [deployed] using hcall)).2
  fails := by
    intro t t' spender value data hcall hdata
    have htrue : data = boolAbiEncode true :=
      (approve_eq_ok (by simpa [deployed] using hcall)).1
    exact absurd (htrue ▸ success_boolAbiEncode_true) hdata

end ForceApproveMock

/-! ### The allowance operations are exact -/

namespace SafeErc20

variable {τ : Type}

/-- **The allowance operations are exact**, on a token whose `approve` sets the allowance or fails
without effect. An operation that succeeds leaves what it is to leave; `force_approve` succeeds
where the token takes the change in two steps; a decrease fails as too large when it is; and with a
record of the states between the calls, which changes nothing else, no allowance in it is more than
before or after. -/
theorem allowance_exact {T : AllowanceTokens τ} {this token : Address}
    {allowed : τ → Address → U256} (hT : T.Approves this token allowed) (t : τ)
    (spender : Address) (value : U256) :
    (∀ (op : AllowanceOp) (t' : τ),
      (op.exec T this token spender value).exec t = (.ok (), t') →
        (allowed t' spender).toNat = op.intended (allowed t spender).toNat value.toNat) ∧
    (∀ t₁ t₂, T.Accepts this token t (.approve spender 0) t₁ →
      T.Accepts this token t₁ (.approve spender value) t₂ →
        ∃ t', (AllowanceOp.forceApprove.exec T this token spender value).exec t = (.ok (), t')) ∧
    (∀ s current requested,
      ((AllowanceOp.safeDecreaseAllowance.exec T this token spender value).exec t).1 =
          .error (.err (.SafeErc20FailedDecreaseAllowance s current requested)) ↔
        (s = spender ∧ current = allowed t spender ∧ requested = value) ∧
          allowed t spender < value) ∧
    ∀ op : AllowanceOp,
      Prod.map id Prod.fst ((op.exec T.recorded this token spender value).exec (t, [])) =
          (op.exec T this token spender value).exec t ∧
        ∀ s ∈ ((op.exec T.recorded this token spender value).exec (t, [])).2.2,
          (allowed s spender).toNat ≤
            max (allowed t spender).toNat
              (op.intended (allowed t spender).toNat value.toNat) := by
  refine ⟨fun op t' h => ?_, fun t₁ t₂ hzero hvalue => ?_, fun s current requested => ?_,
    fun op => ⟨?_, fun s hs => ?_⟩⟩
  · exact hT.exec_eq_intended h
  · exact hT.forceApprove_succeeds hzero hvalue
  · exact hT.safeDecreaseAllowance_error_iff
  · exact op.exec_projects T this token spender value (t, [])
  · exact hT.exec_within t spender value op s (List.mem_cons_of_mem _ hs)

/-- An allowance of five becomes one of seven, though the token refuses this change. -/
theorem allowance_exact_forceApproveMock :
    ∃ t', (AllowanceOp.forceApprove.exec (ForceApproveMock.deployed 1) 2 1 3 7).exec
      (fun _ _ => 5) = (.ok (), t') ∧ (t' 2 3).toNat = 7 := by
  have hexact := allowance_exact (ForceApproveMock.deployed_approves 1 2) (fun _ _ => 5) 3 7
  obtain ⟨t', ht'⟩ := hexact.2.1 _ _ ⟨_, rfl, success_boolAbiEncode_true⟩
    ⟨_, rfl, success_boolAbiEncode_true⟩
  exact ⟨t', ht', hexact.1 .forceApprove t' ht'⟩

end SafeErc20

end ContractsStylus
