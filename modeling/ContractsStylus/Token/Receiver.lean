import ContractsStylus.Library.Runs
import ContractsStylus.Primitives

/-!
# Receivers of tokens

The acceptance check of the ERC-721 and ERC-1155 contracts. Both call a hook of the receiver and
take everything but the selector of the hook for a rejection; they differ in the arguments of the
hook, in its selector and in the type of their errors.

The receivers are a parameter of the environment. Called with the arguments of the hook and with
the storage of the contract, they answer with a selector and leave some storage behind.

A callback answers in the storage that it has changed, so what the receiver did is seen by whatever
comes after the check. In both contracts nothing does, and `Asked` says of a call that succeeds that
either nobody was asked or the receiver's storage is the result.
-/

namespace ContractsStylus

/-- What a call finds around the contract `σ`: its sender, which accounts are contracts, and what
these do when a hook is called with an `A`. -/
structure Env (A σ : Type) where
  sender : Address
  hasCode : Address → Bool
  receivers : Reentrant.Callback A σ B32 CallError

section Check

variable {A σ ε : Type}

/-- Ask the receiver `dst`, if it is a contract, with the call `a` of the hook `selector`. -/
def checkOnReceived (env : Env A σ) (self : σ) (dst : Address) (a : A) (selector : B32)
    (invalidReceiver : Address → ε) (invalidReceiverWithReason : Bytes → ε) : Result ε σ :=
  if !env.hasCode dst then .ok self
  else match env.receivers a self with
    | .ok (id, self) =>
      -- token rejected
      if id ≠ selector then .err (invalidReceiver dst) else .ok self
    | .error (.Revert reason) =>
      if reason ≠ [] then .err (invalidReceiverWithReason reason)
      else .err (invalidReceiver dst)
    | .error .AbiDecodingFailed => .err (invalidReceiver dst)

/-- `s'` is what `s` became when the receiver was asked, or there was nobody to ask. -/
def Asked (receivers : Reentrant.Callback A σ B32 CallError) (s s' : σ) : Prop :=
  s' = s ∨ ∃ a b, receivers a s = .ok (b, s')

/-- The receiver is asked what the check says. -/
theorem checkOnReceived_cases {env : Env A σ} {s s' : σ} {dst : Address} {a : A} {selector : B32}
    {invalidReceiver : Address → ε} {withReason : Bytes → ε}
    (h : checkOnReceived env s dst a selector invalidReceiver withReason = .ok s') :
    s' = s ∨ ∃ b, env.receivers a s = .ok (b, s') := by
  rw [checkOnReceived] at h
  split at h
  · exact Or.inl (Except.ok.inj h).symm
  · split at h
    · rename_i id t hcall
      obtain ⟨-, ht⟩ := guard_eq_ok.mp h
      cases ht
      exact Or.inr ⟨id, hcall⟩
    · split at h <;> exact absurd h err_ne_ok
    · exact absurd h err_ne_ok

/-- A receiver that is a contract has answered with the selector of the hook. -/
theorem checkOnReceived_accepted {env : Env A σ} {s s' : σ} {dst : Address} {a : A} {selector : B32}
    {invalidReceiver : Address → ε} {withReason : Bytes → ε} (hcode : env.hasCode dst)
    (h : checkOnReceived env s dst a selector invalidReceiver withReason = .ok s') :
    env.receivers a s = .ok (selector, s') := by
  rw [checkOnReceived, hcode, Bool.not_true, if_neg Bool.false_ne_true] at h
  split at h
  · rename_i id t hcall
    rw [guard_eq_ok, not_not] at h
    obtain ⟨rfl, ht⟩ := h
    rw [hcall, Except.ok.inj ht]
  · split at h <;> exact absurd h err_ne_ok
  · exact absurd h err_ne_ok

theorem checkOnReceived_eq_ok {env : Env A σ} {s s' : σ} {dst : Address} {a : A} {selector : B32}
    {invalidReceiver : Address → ε} {withReason : Bytes → ε}
    (h : checkOnReceived env s dst a selector invalidReceiver withReason = .ok s') :
    Asked env.receivers s s' :=
  (checkOnReceived_cases h).imp_right fun hb => ⟨a, hb⟩

/-- Receivers that give an answer and leave the storage alone. -/
def answering (answer : A → Except CallError B32) : Reentrant.Callback A σ B32 CallError :=
  fun a s => (answer a).map fun b => (b, s)

theorem Asked.eq_of_answering {answer : A → Except CallError B32} {s s' : σ}
    (h : Asked (answering answer) s s') : s' = s := by
  rcases h with rfl | ⟨a, b, h⟩
  · rfl
  · rw [answering] at h
    cases hanswer : answer a with
    | error e => rw [hanswer] at h; exact nomatch h
    | ok id =>
      rw [hanswer] at h
      exact (Prod.mk.inj (Except.ok.inj h)).2.symm

/-- When they are asked last, the operation has done what it does without them. -/
theorem eq_ok_of_answering {answer : A → Except CallError B32} {s' : σ} {x : Result ε σ}
    {f : σ → Result ε σ} (hf : ∀ s, f s = .ok s' → Asked (answering answer) s s')
    (h : x >>= f = .ok s') : x = .ok s' := by
  obtain ⟨s, hs, h⟩ := bind_eq_ok.mp h
  rw [(hf s h).eq_of_answering]
  exact hs

end Check

end ContractsStylus
