import ContractsStylus.Token.Erc20

/-!
# Tokens of other contracts

Calls of ERC-20 tokens that are contracts of their own. Such a token may answer a call with a
boolean, with nothing, or with anything else, and it may revert; `call_optional_return` takes what
is not a revert, and is empty or `true`, for a success.

The other contracts are a parameter, `Tokens`, with a storage that only they can change. What a
proof needs to know about a token is that it moves what it is asked to move, and that is a
property of the parameter. The ERC-20 of this repository has it.

## Booleans

An answer is one word at most, and it is decoded with validation. That does not leave zero and one
as the only answers: the validation is that the first 31 bytes are zero, and any last byte but zero
is `true`. So there are 255 words that stand for a success, and `Tokens.Exact` is a promise for
each of them.

## Main definitions

* `Tokens` — the other contracts, as they are called
* `Tokens.Exact` — a token whose successful calls move exactly what they say
* `SafeErc20.callOptionalReturn`, `safeTransfer`, `safeTransferFrom`
* `Erc20.deployed` — an ERC-20 of this repository as the token at some address

## Main results

* `Tokens.Exact.safeTransfer`, `Tokens.Exact.safeTransferFrom` — what the wrappers move
* `Erc20.deployed_exact` — the ERC-20 of this repository is exact
-/

namespace ContractsStylus

/-- The other contracts, with storage `τ`, as seen by a contract that calls them. -/
structure Tokens (τ : Type) where
  hasCode : τ → Address → Bool
  /-- `Erc20Interface::new(token).balance_of(account)`. -/
  balanceOf : τ → (token account : Address) → Except CallError U256
  /-- A call of `token`, sent by `sender`: the data it returns and the storage it leaves, or the
  data it reverts with. -/
  call : τ → (sender token : Address) → Erc20.Call → Except Bytes (Bytes × τ)

namespace SafeErc20

def BOOL_TYPE_SIZE : ℕ := 32

inductive Error
  | SafeErc20FailedOperation (token : Address)
  | SafeErc20FailedDecreaseAllowance (spender : Address)
      (currentAllowance requestedDecrease : U256)
  deriving DecidableEq, Repr

/-- `Bool::abi_encode`, one word. -/
def boolAbiEncode (b : Bool) : Bytes := List.replicate 31 0 ++ [if b then 1 else 0]

/-- `Bool::abi_decode` with validation: one word, of which all bytes but the last are zero. Every
such word that is not zero is `true`. -/
def boolAbiDecode (data : Bytes) : Option Bool :=
  if data.length = BOOL_TYPE_SIZE && (data.take 31).all (· = 0) then
    some (data != List.replicate BOOL_TYPE_SIZE 0)
  else none

/-- **What is read as `true`.** The last byte need not be one. -/
theorem boolAbiDecode_eq_true {data : Bytes} :
    boolAbiDecode data = some true ↔ ∃ b : U8, b ≠ 0 ∧ data = List.replicate 31 0 ++ [b] := by
  have hzero : List.replicate BOOL_TYPE_SIZE (0 : U8) = List.replicate 31 0 ++ [0] := rfl
  rw [boolAbiDecode, hzero]
  constructor
  · intro h
    split at h
    · rename_i hword
      rw [Bool.and_eq_true, decide_eq_true_iff, List.all_eq_true] at hword
      obtain ⟨hlength, hall⟩ := hword
      have hhead : data.take 31 = List.replicate 31 0 :=
        List.eq_replicate_iff.mpr ⟨by rw [List.length_take, hlength]; rfl,
          fun b hb => of_decide_eq_true (hall b hb)⟩
      have hlast : (data.drop 31).length = 1 := by rw [List.length_drop, hlength]; rfl
      obtain ⟨b, hb⟩ := List.length_eq_one_iff.mp hlast
      have hdata : data = List.replicate 31 0 ++ [b] := by
        rw [← hhead, ← hb, List.take_append_drop]
      refine ⟨b, ?_, hdata⟩
      rintro rfl
      rw [hdata] at h
      simp at h
    · exact absurd h nofun
  · rintro ⟨b, hb, rfl⟩
    rw [if_pos (by simp [BOOL_TYPE_SIZE]), Option.some_inj, bne_iff_ne, ne_eq,
      List.append_cancel_left_eq, List.cons.injEq]
    exact fun h => hb h.1

/-- Whether returned data stands for a success. No more of it is read than a boolean takes. -/
def isSuccess (data : Bytes) : Bool :=
  let data := data.take BOOL_TYPE_SIZE
  data.isEmpty || boolAbiDecode data = some true

section Calls

variable {τ : Type} (T : Tokens τ) (this : Address)

/-- Call `token` from the contract `this`. -/
def callOptionalReturn (t : τ) (token : Address) (call : Erc20.Call) : Result Error τ :=
  if !T.hasCode t token then .err (.SafeErc20FailedOperation token)
  else match T.call t this token call with
    | .ok (data, t) => if isSuccess data then .ok t else .err (.SafeErc20FailedOperation token)
    | .error _ => .err (.SafeErc20FailedOperation token)

def safeTransfer (t : τ) (token dst : Address) (value : U256) : Result Error τ :=
  callOptionalReturn T this t token (.transfer dst value)

def safeTransferFrom (t : τ) (token src dst : Address) (value : U256) : Result Error τ :=
  callOptionalReturn T this t token (.transferFrom src dst value)

variable {T this} {t t' : τ} {token : Address} {call : Erc20.Call}

theorem callOptionalReturn_eq_ok (h : callOptionalReturn T this t token call = .ok t') :
    ∃ data, T.call t this token call = .ok (data, t') ∧ isSuccess data := by
  rw [callOptionalReturn, guard_eq_ok] at h
  replace h := h.2
  split at h
  · rename_i data s hcall
    obtain ⟨hdata, hs⟩ := guard_not_eq_ok.mp h
    cases hs
    exact ⟨data, hcall, hdata⟩
  · exact absurd h err_ne_ok

end Calls

end SafeErc20

/-! ### Exact tokens -/

/-- A token whose balances are those of a ledger, and whose successful calls move exactly what they
say. -/
structure Tokens.Exact {τ : Type} (T : Tokens τ) (token : Address) (ledger : τ → Address → ℕ) :
    Prop where
  /-- A balance that can be read is the one of the ledger. -/
  balanceOf_eq : ∀ {t : τ} {account : Address} {balance : U256},
    T.balanceOf t token account = .ok balance → balance.toNat = ledger t account
  /-- A call that is answered with a success moves what it says. -/
  moves : ∀ {t t' : τ} {sender : Address} {c : Erc20.Call} {data : Bytes},
    T.call t sender token c = .ok (data, t') → SafeErc20.isSuccess data →
      c.Moves sender (ledger t) (ledger t')

namespace Tokens.Exact

variable {τ : Type} {T : Tokens τ} {token this : Address} {ledger : τ → Address → ℕ} {t t' : τ}

theorem safeTransfer (hT : T.Exact token ledger) {dst : Address} {value : U256}
    (h : SafeErc20.safeTransfer T this t token dst value = .ok t') :
    value.toNat ≤ ledger t this ∧ ledger t' = Tally.move (ledger t) this dst value.toNat := by
  obtain ⟨data, hcall, hdata⟩ := SafeErc20.callOptionalReturn_eq_ok h
  exact hT.moves hcall hdata

theorem safeTransferFrom (hT : T.Exact token ledger) {src dst : Address} {value : U256}
    (h : SafeErc20.safeTransferFrom T this t token src dst value = .ok t') :
    value.toNat ≤ ledger t src ∧ ledger t' = Tally.move (ledger t) src dst value.toNat := by
  obtain ⟨data, hcall, hdata⟩ := SafeErc20.callOptionalReturn_eq_ok h
  exact hT.moves hcall hdata

end Tokens.Exact

/-! ### The ERC-20 of this repository as a token -/

namespace Erc20

/-- The storage of a deployed ERC-20, in which the balances add up to the supply. -/
abbrev Deployed := { self : Erc20 // self.Conserved }

/-- A deployed ERC-20 whose supply belongs to one account. -/
def Deployed.fund (account : Address) (value : U256) : Deployed :=
  ⟨{ empty.setBalance account value with totalSupply := value }, by
    have hsum : ∑ a, (empty.setBalance account value).held a + 0 =
        ∑ a, empty.held a + value.toNat := sum_held_setBalance
    have hempty : ∑ a, empty.held a = 0 := conserved_empty
    change ∑ a, (empty.setBalance account value).held a = value.toNat
    omega⟩

/-- A call of a deployed ERC-20. What its errors are encoded to is read by nobody. -/
def Deployed.call (self : Deployed) (sender : Address) (c : Call) :
    Except Bytes (Bytes × Deployed) :=
  match h : self.1.exec sender c with
  | .ok (answer, self') => .ok (SafeErc20.boolAbiEncode answer, ⟨self', (self.2.exec h).1⟩)
  | .error _ => .error []

/-- A call that is answered was executed. -/
theorem Deployed.exec_of_call {self self' : Deployed} {sender : Address} {c : Call} {data : Bytes}
    (h : self.call sender c = .ok (data, self')) :
    ∃ answer, self.1.exec sender c = .ok (answer, self'.1) := by
  rw [Deployed.call] at h
  split at h
  · rename_i hexec
    cases h
    exact ⟨_, hexec⟩
  · exact absurd h nofun

/-- A call that is executed is answered with a success. -/
theorem Deployed.exists_call {self : Deployed} {s : Erc20} {sender : Address} {c : Call}
    (h : self.1.exec sender c = .ok (true, s)) :
    ∃ self', self.call sender c = .ok (SafeErc20.boolAbiEncode true, self') := by
  rw [Deployed.call]
  split
  · rename_i hexec
    obtain ⟨rfl, rfl⟩ := Prod.mk.inj (Except.ok.inj (h.symm.trans hexec))
    exact ⟨_, rfl⟩
  · rename_i hexec
    exact nomatch h.symm.trans hexec

theorem Deployed.moves {self self' : Deployed} {sender : Address} {c : Call} {data : Bytes}
    (h : self.call sender c = .ok (data, self')) : c.Moves sender self.1.held self'.1.held := by
  obtain ⟨answer, hexec⟩ := Deployed.exec_of_call h
  exact (self.2.exec hexec).2

/-- A deployed ERC-20 at the address `token`, and no other contract. -/
def deployed (token : Address) : Tokens Deployed where
  hasCode _ callee := callee = token
  balanceOf self callee account :=
    if callee = token then .ok (self.1.balanceOf account) else .error .AbiDecodingFailed
  call self sender callee c := if callee = token then self.call sender c else .ok ([], self)

/-- **The ERC-20 of this repository moves exactly what it is asked to move.** -/
theorem deployed_exact (token : Address) :
    (deployed token).Exact token fun self => self.1.held where
  balanceOf_eq {self account balance} h := by
    have hbalance : self.1.balanceOf account = balance := by simpa [deployed] using h
    exact (congrArg BitVec.toNat hbalance).symm
  moves h _ := Deployed.moves (by simpa [deployed] using h)

end Erc20

end ContractsStylus
