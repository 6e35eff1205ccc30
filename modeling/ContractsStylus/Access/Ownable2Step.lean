import ContractsStylus.Access.Ownable
import ContractsStylus.Library.Runs

/-!
# Ownable in two steps

`Ownable2Step`, where a new owner has to accept before the old one is replaced. A nomination can be
replaced by another one, or by nobody, as long as it was not accepted.

How somebody came to own the contract can be read off the transactions: there is one by which the
owner nominated him, and nothing happened between that and his acceptance. Whoever finds nobody in
office finds that the last owner has left, and that nothing can be done any more.

## Provenance

Both results are about runs whose transactions may fail. They do not list what can happen; they take
the last state of the run, and point at the transaction in it that this state comes from and at what
was the case before it. The general rule for such statements is `Machine.exists_since`: a property
that holds after a run and did not hold before was brought about by some operation, and held since.

The one lemma on the contract is `exec_eq_ok`, an equivalence. So a transaction that is refused need
not be looked at, and the three that are accepted are the cases of every proof.

## Main definitions

* `Ownable2Step`, `Ownable2Step.exec` — the storage and the calls
* `Ownable2Step.machine` — the contract as a machine

## Main results

* `Ownable2Step.owner_provenance` — how somebody came to own the contract
* `Ownable2Step.renounced_provenance` — how it came to be owned by nobody, and what follows
-/

namespace ContractsStylus

/-- State of an `Ownable2Step` contract. -/
structure Ownable2Step where
  ownable : Ownable
  pendingOwner : Address
  deriving DecidableEq, Repr

namespace Ownable2Step

open Ownable (Error)

def constructor (initialOwner : Address) : Result Error Ownable2Step := do
  let ownable ← Ownable.constructor initialOwner
  pure ⟨ownable, 0⟩

def owner (self : Ownable2Step) : Address := self.ownable.owner

def _transferOwnership (self : Ownable2Step) (newOwner : Address) : Ownable2Step :=
  ⟨self.ownable._transferOwnership newOwner, 0⟩

def transferOwnership (self : Ownable2Step) (sender newOwner : Address) :
    Result Error Ownable2Step := do
  self.ownable.onlyOwner sender
  pure { self with pendingOwner := newOwner }

def acceptOwnership (self : Ownable2Step) (sender : Address) : Result Error Ownable2Step :=
  if sender ≠ self.pendingOwner then .err (.UnauthorizedAccount sender)
  else .ok (self._transferOwnership sender)

def renounceOwnership (self : Ownable2Step) (sender : Address) : Result Error Ownable2Step := do
  self.ownable.onlyOwner sender
  pure (self._transferOwnership 0)

/-- The calls that change the storage. -/
inductive Call
  | transferOwnership (newOwner : Address)
  | acceptOwnership
  | renounceOwnership
  deriving DecidableEq, Repr

/-- A call with its sender. -/
structure Tx where
  sender : Address
  call : Call
  deriving DecidableEq, Repr

def exec (self : Ownable2Step) (tx : Tx) : Result Error Ownable2Step :=
  match tx.call with
  | .transferOwnership newOwner => self.transferOwnership tx.sender newOwner
  | .acceptOwnership => self.acceptOwnership tx.sender
  | .renounceOwnership => self.renounceOwnership tx.sender

/-- The contract as a machine. -/
def machine : Machine Ownable2Step Tx (Revert Error) := ⟨exec⟩

variable {self self' s : Ownable2Step} {sender newOwner initialOwner a : Address} {tx : Tx}
  {txs : List Tx}

/-! ### What the calls do

An equivalence, so that it can be used for calls that are accepted and for calls that should be. -/

theorem constructor_eq_ok :
    constructor initialOwner = .ok self ↔ initialOwner ≠ 0 ∧ self = ⟨⟨initialOwner⟩, 0⟩ := by
  simp only [constructor, Ownable.constructor, Ownable._transferOwnership, bind_eq_ok, guard_eq_ok,
    Except.ok.injEq, pure_eq_ok, and_assoc, exists_and_left, exists_eq_left', eq_comm (a := self)]

/-- The owner nominates somebody, the nominated account takes over, or the owner leaves. -/
theorem exec_eq_ok : self.exec tx = .ok self' ↔
    (∃ newOwner, tx = ⟨self.owner, .transferOwnership newOwner⟩ ∧
      self' = ⟨⟨self.owner⟩, newOwner⟩) ∨
    (tx = ⟨self.pendingOwner, .acceptOwnership⟩ ∧ self' = ⟨⟨self.pendingOwner⟩, 0⟩) ∨
    (tx = ⟨self.owner, .renounceOwnership⟩ ∧ self' = ⟨⟨0⟩, 0⟩) := by
  rcases tx with ⟨sender, newOwner | _ | _⟩
  · simp only [exec, transferOwnership, bind_eq_ok, Ownable.onlyOwner_eq_ok, pure_eq_ok,
      exists_const, Tx.mk.injEq, Call.transferOwnership.injEq, reduceCtorEq, and_false, false_and,
      or_false, and_assoc, eq_comm (a := sender), eq_comm (a := self')]
    simp only [exists_and_left, exists_eq_left']
    rfl
  · simp only [exec, acceptOwnership, guard_eq_ok, not_not, Except.ok.injEq, Tx.mk.injEq,
      reduceCtorEq, and_false, false_and, exists_false, false_or, or_false, and_true,
      eq_comm (a := self')]
    exact and_congr_right fun h => by rw [h]; rfl
  · simp only [exec, renounceOwnership, bind_eq_ok, Ownable.onlyOwner_eq_ok, pure_eq_ok,
      exists_const, Tx.mk.injEq, reduceCtorEq, and_false, false_and, false_or, and_true,
      eq_comm (a := sender), eq_comm (a := self')]
    rfl

/-! ### How the contract changed hands

Both are uses of the rule on what has held since when, one for ownership by somebody and one for
ownership by nobody. -/

/-- **Whoever came to own the contract was nominated and accepted.** If an account owns it after a
run that found it neither owning nor nominated, then there is a transaction of the run by which the
owner of the time nominated the account, all through what followed nothing changed until the account
accepted, and it has been the owner since. -/
theorem owner_provenance (ha : a ≠ 0) (howner : s.owner ≠ a) (hpending : s.pendingOwner ≠ a)
    (h : (machine.run s txs).owner = a) :
    ∃ o pre mid post,
      txs = pre ++ ⟨o, .transferOwnership a⟩ :: mid ++ ⟨a, .acceptOwnership⟩ :: post ∧
      o ≠ a ∧ (machine.run s pre).owner = o ∧
      machine.Throughout (· = ⟨⟨o⟩, a⟩) ⟨⟨o⟩, a⟩ mid ∧
      machine.Throughout (·.owner = a) ⟨⟨a⟩, 0⟩ post := by
  obtain ⟨before, tx, post, s₁, rfl, hbefore, hexec, hpost⟩ :=
    machine.exists_since (Q := fun s => s.owner = a) howner h
  have hs₁ : s₁.owner = a := hpost [] (List.nil_prefix ..)
  obtain ⟨newOwner, -, rfl⟩ | ⟨rfl, rfl⟩ | ⟨-, rfl⟩ := exec_eq_ok.mp hexec
  · exact absurd hs₁ hbefore
  · -- the account was nominated when it accepted
    have hnominated : (machine.run s before).pendingOwner = a := hs₁
    have hstate : machine.run s before = ⟨⟨(machine.run s before).owner⟩, a⟩ := by
      rw [← hnominated]
      rfl
    generalize (machine.run s before).owner = o at hbefore hstate
    obtain ⟨pre, tx, mid, s₂, rfl, hpre, hexec', hmid⟩ :=
      machine.exists_since (Q := (· = ⟨⟨o⟩, a⟩)) (fun heq => hpending (by rw [heq])) hstate
    obtain rfl : s₂ = ⟨⟨o⟩, a⟩ := hmid [] (List.nil_prefix ..)
    obtain ⟨newOwner, rfl, heq⟩ | ⟨-, heq⟩ | ⟨-, heq⟩ := exec_eq_ok.mp hexec'
    · obtain ⟨ho, rfl⟩ := Ownable2Step.mk.inj heq
      obtain rfl : o = _ := congrArg Ownable.owner ho
      rw [hnominated] at hpost ⊢
      exact ⟨_, pre, mid, post, rfl, hbefore, rfl, hmid, hpost⟩
    · exact absurd (congrArg pendingOwner heq) ha
    · exact absurd (congrArg pendingOwner heq) ha
  · exact absurd hs₁.symm ha

/-- Account `1` deploys the contract, nominates account `2`, and then account `3` instead, which
accepts after account `2` was refused. -/
theorem owner_provenance_three : ∃ s, constructor 1 = .ok s ∧ ∃ o pre mid post,
    [⟨1, .transferOwnership 2⟩, ⟨1, .transferOwnership 3⟩, ⟨2, .acceptOwnership⟩,
      ⟨3, .acceptOwnership⟩] =
      pre ++ ⟨o, .transferOwnership 3⟩ :: mid ++ ⟨3, .acceptOwnership⟩ :: post ∧
      o ≠ 3 ∧ (machine.run s pre).owner = o ∧
      machine.Throughout (· = ⟨⟨o⟩, 3⟩) ⟨⟨o⟩, 3⟩ mid ∧
      machine.Throughout (·.owner = 3) ⟨⟨3⟩, 0⟩ post :=
  ⟨_, constructor_eq_ok.mpr ⟨by decide, rfl⟩,
    owner_provenance (by decide) (by decide) (by decide) (by decide)⟩

/-- Nobody has the address zero, so a contract without owner and nominee answers everybody with an
error and stays as it is. -/
theorem renounced_outcomes (hsender : ∀ tx ∈ txs, tx.sender ≠ 0) :
    machine.outcomes ⟨⟨0⟩, 0⟩ txs =
        txs.map (fun tx => .error (.err (.UnauthorizedAccount tx.sender))) ∧
      machine.run ⟨⟨0⟩, 0⟩ txs = ⟨⟨0⟩, 0⟩ := by
  induction txs with
  | nil => exact ⟨rfl, rfl⟩
  | cons tx txs ih =>
    obtain ⟨hout, hrun⟩ := ih fun tx htx => hsender tx (List.mem_cons_of_mem _ htx)
    have hne : (0 : Address) ≠ tx.sender := (hsender tx (List.mem_cons_self ..)).symm
    have hexec : machine.exec ⟨⟨0⟩, 0⟩ tx = .error (.err (.UnauthorizedAccount tx.sender)) := by
      rcases tx with ⟨sender, _ | _ | _⟩
      · simp only [machine, exec, transferOwnership, Ownable.onlyOwner, if_pos hne, err_bind]
        rfl
      · simp only [machine, exec, acceptOwnership, if_pos hne.symm]
        rfl
      · simp only [machine, exec, renounceOwnership, Ownable.onlyOwner, if_pos hne, err_bind]
        rfl
    rw [Machine.outcomes, Machine.run_cons, machine.step_of_error hexec, hexec, hout, hrun]
    exact ⟨rfl, rfl⟩

/-- **A contract is left without owner by its owner, and for good.** If nobody owns it after a run
that found it owned, then there is a transaction of the run by which the owner of the time left, and
every transaction since was refused as coming from somebody who is not authorized. -/
theorem renounced_provenance (hsender : ∀ tx ∈ txs, tx.sender ≠ 0) (howner : s.owner ≠ 0)
    (h : (machine.run s txs).owner = 0) :
    ∃ pre post, txs = pre ++ ⟨(machine.run s pre).owner, .renounceOwnership⟩ :: post ∧
      machine.outcomes ⟨⟨0⟩, 0⟩ post =
        post.map (fun tx => .error (.err (.UnauthorizedAccount tx.sender))) ∧
      machine.run s txs = ⟨⟨0⟩, 0⟩ := by
  obtain ⟨pre, tx, post, s₁, rfl, hpre, hexec, hpost⟩ :=
    machine.exists_since (Q := fun s => s.owner = 0) howner h
  have hs₁ : s₁.owner = 0 := hpost [] (List.nil_prefix ..)
  obtain ⟨newOwner, -, rfl⟩ | ⟨rfl, rfl⟩ | ⟨rfl, rfl⟩ := exec_eq_ok.mp hexec
  · exact absurd hs₁ hpre
  · exact absurd hs₁ (hsender _ (List.mem_append_right _ (List.mem_cons_self ..)))
  · obtain ⟨hout, hrun⟩ :=
      renounced_outcomes fun tx (htx : tx ∈ post) => hsender tx (by simp [htx])
    refine ⟨pre, post, rfl, hout, ?_⟩
    rw [Machine.run_append, Machine.run_cons, machine.step_of_ok hexec, hrun]

/-- Account `1`, which deployed the contract, leaves while account `2` is nominated. -/
theorem renounced_provenance_one : ∃ s, constructor 1 = .ok s ∧ ∃ pre post,
    [⟨1, .transferOwnership 2⟩, ⟨1, .renounceOwnership⟩, ⟨2, .acceptOwnership⟩] =
      pre ++ ⟨(machine.run s pre).owner, .renounceOwnership⟩ :: post ∧
    machine.outcomes ⟨⟨0⟩, 0⟩ post =
      post.map (fun tx => .error (.err (.UnauthorizedAccount tx.sender))) ∧
    machine.run s [⟨1, .transferOwnership 2⟩, ⟨1, .renounceOwnership⟩,
      ⟨2, .acceptOwnership⟩] = ⟨⟨0⟩, 0⟩ :=
  ⟨_, constructor_eq_ok.mpr ⟨by decide, rfl⟩,
    renounced_provenance (by decide) (by decide) (by decide)⟩

end Ownable2Step

end ContractsStylus
