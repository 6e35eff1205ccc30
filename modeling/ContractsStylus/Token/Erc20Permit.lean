import ContractsStylus.Library.Tickets
import ContractsStylus.Token.Erc20Runs
import ContractsStylus.Utils.Ecdsa
import ContractsStylus.Utils.Eip712
import ContractsStylus.Utils.Nonces

/-!
# Erc20Permit

Approvals by signature: whoever presents an approval that the owner has signed has it made. What is
signed includes the next nonce of the owner, which is consumed, so that an approval cannot be
presented twice.

`keccak256` and the static calls, `ecRecover` among them, are parameters. The contract consists of
the storages of the token and of the nonces; the extension has none of its own.

## What a signature binds

The struct that is hashed names the owner, the spender, the value, the nonce and the deadline, and
the digest adds the domain. `digest_injective` takes a digest back to all of these, for a hash that
has no collision among the bytes that are hashed. That the accepted permits of an owner have the
nonces from zero on, each once, needs no assumption; the digests are different because of it.

The nonce is not an argument of the call. It is read from the storage and goes into the digest that
the signer is recovered from, so there is nothing to compare it with: a signature counts for the
nonce that the owner has at the time, or for none.

## Main definitions

* `Erc20Permit.Error`, `Erc20Permit.Context`, `PermitToken`
* `Erc20Permit.permit` — the function of the extension
* `Erc20Permit.machine`, `Erc20Permit.accepted` — runs, and the permits accepted in one

## Main results

* `Erc20Permit.permit_eq_ok` — what a permit that is accepted has shown and done
* `Erc20Permit.digest_injective` — what is signed is bound by the digest
* `Erc20Permit.replay_safety` — no permit is accepted twice
-/

namespace ContractsStylus

/-- A token with permits. -/
structure PermitToken where
  erc20 : Erc20
  nonces : Nonces

namespace Erc20Permit

inductive Error
  | ExpiredSignature (deadline : U256)
  | InvalidSigner (signer owner : Address)
  | InsufficientBalance (sender : Address) (balance needed : U256)
  | InvalidSender (sender : Address)
  | InvalidReceiver (receiver : Address)
  | InsufficientAllowance (spender : Address) (allowance needed : U256)
  | InvalidSpender (spender : Address)
  | InvalidApprover (approver : Address)
  | InvalidSignature
  | InvalidSignatureS (s : B256)
  deriving DecidableEq, Repr

/-- `From<erc20::Error>`. -/
def Error.ofErc20 : Erc20.Error → Error
  | .InsufficientBalance sender balance needed => .InsufficientBalance sender balance needed
  | .InvalidSender sender => .InvalidSender sender
  | .InvalidReceiver receiver => .InvalidReceiver receiver
  | .InsufficientAllowance spender allowance needed =>
    .InsufficientAllowance spender allowance needed
  | .InvalidSpender spender => .InvalidSpender spender
  | .InvalidApprover approver => .InvalidApprover approver

/-- `From<ecrecover::Error>`. -/
def Error.ofEcrecover : Ecdsa.Error → Error
  | .InvalidSignature => .InvalidSignature
  | .InvalidSignatureS s => .InvalidSignatureS s

/-- What the contract is deployed with, and what it calls. -/
structure Context where
  eip712 : Eip712
  /-- `contract::address()`. -/
  this : Address
  keccak256 : Bytes → B256
  staticCall : Ecdsa.StaticCall

/-- The arguments of `permit`. -/
structure Permit where
  owner : Address
  spender : Address
  value : U256
  deadline : U256
  v : U8
  r : B256
  s : B256
  deriving DecidableEq, Repr

section Functions

variable (C : Context)

def PERMIT_TYPEHASH : B256 :=
  C.keccak256 (Abi.asBytes
    "Permit(address owner,address spender,uint256 value,uint256 nonce,uint256 deadline)")

/-- `StructHashTuple::abi_encode`. -/
def structHashTuple (p : Permit) (nonce : U256) : Bytes :=
  Abi.abiEncode [PERMIT_TYPEHASH C, p.owner.setWidth 256, p.spender.setWidth 256, p.value, nonce,
    p.deadline]

def domainSeparator (chainid : U64) : B256 :=
  C.eip712.domainSeparatorV4 C.keccak256 chainid C.this

def permit (self : PermitToken) (timestamp chainid : U64) (p : Permit) :
    Result Error PermitToken :=
  if timestamp.setWidth 256 > p.deadline then .err (.ExpiredSignature p.deadline)
  else do
    let (nonce, nonces) ← self.nonces.useNonce p.owner
    let structHash := C.keccak256 (structHashTuple C p nonce)
    let hash := C.eip712.hashTypedDataV4 C.keccak256 chainid C.this structHash
    let signer ← (Ecdsa.recover C.staticCall hash p.v p.r p.s).mapErr Error.ofEcrecover
    if signer ≠ p.owner then .err (.InvalidSigner signer p.owner)
    else do
      let (_, erc20) ← (self.erc20._approve p.owner p.spender p.value).mapErr Error.ofErc20
      pure ⟨erc20, nonces⟩

end Functions

/-! ### Runs -/

/-- The operations of a token with permits. -/
inductive Op
  | permit (p : Permit)
  | erc20 (op : Erc20.Op)

/-- An operation, with its sender and the block that it is in. -/
structure Tx where
  sender : Address
  timestamp : U64
  chainid : U64
  op : Op

/-- A permit with the nonce and the chain that it was accepted with. -/
structure Accepted where
  permit : Permit
  nonce : U256
  chainid : U64
  deriving DecidableEq, Repr

section Runs

variable (C : Context)

def exec (self : PermitToken) (tx : Tx) : Result Error PermitToken :=
  match tx.op with
  | .permit p => permit C self tx.timestamp tx.chainid p
  | .erc20 op => do
    let erc20 ← (self.erc20.execTx ⟨tx.sender, op⟩).mapErr Error.ofErc20
    pure { self with erc20 }

def machine : Machine PermitToken Tx (Revert Error) := ⟨exec C⟩

/-- What a permit that is accepted leaves in the log of a run. -/
def entry (self : PermitToken) (tx : Tx) : List Accepted :=
  match tx.op with
  | .permit p => [⟨p, self.nonces.nonces p.owner, tx.chainid⟩]
  | .erc20 _ => []

/-- The permits that are accepted in a run, first to last. -/
def accepted (self : PermitToken) (txs : List Tx) : List Accepted :=
  (machine C).log entry self txs

namespace Accepted

/-- The bytes of the struct that is hashed. -/
def structBytes (a : Accepted) : Bytes := structHashTuple C a.permit a.nonce

/-- The bytes of the typed data that are hashed. -/
def typedBytes (a : Accepted) : Bytes :=
  Eip712.preimage (domainSeparator C a.chainid) (C.keccak256 (a.structBytes C))

/-- The typed-data digest. -/
def digest (a : Accepted) : B256 := C.keccak256 (a.typedBytes C)

end Accepted

end Runs

/-! ### What a permit shows and does -/

variable {C : Context} {self self' : PermitToken} {p : Permit} {timestamp chainid : U64} {tx : Tx}

/-- **A permit that is accepted** comes in time, is signed by the owner, over its next nonce, and
makes the approval that was signed. -/
theorem permit_eq_ok (h : permit C self timestamp chainid p = .ok self') :
    timestamp.setWidth 256 ≤ p.deadline ∧
      Ecdsa.recover C.staticCall
        (Accepted.digest C ⟨p, self.nonces.nonces p.owner, chainid⟩) p.v p.r p.s = .ok p.owner ∧
      self'.nonces.used =
        Function.update self.nonces.used p.owner (self.nonces.used p.owner + 1) ∧
      self'.erc20 = { self.erc20 with
        allowances := Function.update self.erc20.allowances p.owner
          (Function.update (self.erc20.allowances p.owner) p.spender p.value) } := by
  obtain ⟨hdeadline, h⟩ := guard_eq_ok.mp h
  obtain ⟨⟨nonce, nonces⟩, hnonce, h⟩ := bind_eq_ok.mp h
  obtain ⟨signer, hsigner, h⟩ := bind_eq_ok.mp h
  obtain ⟨howner, h⟩ := guard_eq_ok.mp h
  obtain ⟨⟨ok, erc20⟩, happrove, h⟩ := bind_eq_ok.mp h
  obtain rfl := pure_eq_ok.mp h
  obtain ⟨rfl, hused⟩ := Nonces.useNonce_eq_ok hnonce
  have hsigner := mapErr_eq_ok.mp hsigner
  rw [not_not.mp howner] at hsigner
  obtain ⟨-, happrove⟩ := guard_eq_ok.mp (mapErr_eq_ok.mp happrove)
  obtain ⟨-, happrove⟩ := guard_eq_ok.mp happrove
  obtain rfl := (Prod.mk.inj (Except.ok.inj happrove)).2
  exact ⟨not_lt.mp hdeadline, hsigner, hused, rfl⟩

/-- A permit takes the next nonce of its owner, and nothing else takes any. -/
theorem draws : (machine C).Draws entry (fun a => a.permit.owner) (fun a => a.nonce.toNat)
    (fun self => self.nonces.used) := by
  intro self tx self' h
  rcases tx with ⟨sender, timestamp, chainid, op⟩
  cases op with
  | permit p =>
    obtain ⟨-, -, hused, -⟩ := permit_eq_ok h
    exact Or.inr ⟨_, rfl, rfl, hused⟩
  | erc20 op =>
    obtain ⟨erc20, -, h⟩ := bind_eq_ok.mp h
    obtain rfl := pure_eq_ok.mp h
    exact Or.inl ⟨rfl, rfl⟩

/-- **The digest binds what is signed**, where `keccak256` has no collisions: the domain, every
argument of the permit but the signature, and the nonce. -/
theorem digest_injective {a b : Accepted} {l : List Accepted} (ha : a ∈ l) (hb : b ∈ l)
    (hstruct : Set.InjOn C.keccak256 {x | ∃ a ∈ l, x = a.structBytes C})
    (htyped : Set.InjOn C.keccak256 {x | ∃ a ∈ l, x = a.typedBytes C})
    (h : a.digest C = b.digest C) :
    domainSeparator C a.chainid = domainSeparator C b.chainid ∧
      a.permit.owner = b.permit.owner ∧ a.permit.spender = b.permit.spender ∧
      a.permit.value = b.permit.value ∧ a.nonce = b.nonce ∧
      a.permit.deadline = b.permit.deadline := by
  have htyped := htyped ⟨a, ha, rfl⟩ ⟨b, hb, rfl⟩ h
  rw [Accepted.typedBytes, Accepted.typedBytes] at htyped
  obtain ⟨hdomain, hhash⟩ := Eip712.preimage_injective htyped
  have hstruct := hstruct ⟨a, ha, rfl⟩ ⟨b, hb, rfl⟩ hhash
  rw [Accepted.structBytes, Accepted.structBytes, structHashTuple, structHashTuple] at hstruct
  have hwords := Abi.abiEncode_injective (by rfl) hstruct
  simp only [List.cons.injEq, and_true] at hwords
  obtain ⟨-, howner, hspender, hvalue, hnonce, hdeadline⟩ := hwords
  exact ⟨hdomain, Abi.setWidth_injective howner, Abi.setWidth_injective hspender, hvalue, hnonce,
    hdeadline⟩

/-- **A permit is accepted once.** In every run of permits and other operations of the token, with
any arguments, senders and times: if `keccak256` has no collisions among what is hashed for the
permits that are accepted, their digests are different. The permits of an owner that are accepted
are over the nonces from 0 on, one after the other. A permit that is accepted was signed by its
owner, which is not zero, comes before its deadline and sets the allowance that was signed; one
that fails changes nothing. -/
theorem replay_safety (C : Context) (erc20 : Erc20) (txs : List Tx) :
    (Set.InjOn C.keccak256 {x | ∃ a ∈ accepted C ⟨erc20, .empty⟩ txs, x = a.structBytes C} →
      Set.InjOn C.keccak256 {x | ∃ a ∈ accepted C ⟨erc20, .empty⟩ txs, x = a.typedBytes C} →
        ((accepted C ⟨erc20, .empty⟩ txs).map fun a => a.digest C).Nodup) ∧
    (∀ owner, ((accepted C ⟨erc20, .empty⟩ txs).filter fun a => a.permit.owner = owner).map
        (fun a => a.nonce.toNat) =
      List.range ((accepted C ⟨erc20, .empty⟩ txs).filter fun a => a.permit.owner = owner).length) ∧
    ∀ self sender timestamp chainid p,
      (∀ self', exec C self ⟨sender, timestamp, chainid, .permit p⟩ = .ok self' →
        Ecdsa.recover C.staticCall
            (Accepted.digest C ⟨p, self.nonces.nonces p.owner, chainid⟩) p.v p.r p.s = .ok p.owner ∧
          p.owner ≠ 0 ∧ timestamp.toNat ≤ p.deadline.toNat ∧
          (∀ owner spender, self'.erc20.allowance owner spender =
            if owner = p.owner ∧ spender = p.spender then p.value
            else self.erc20.allowance owner spender) ∧
          self'.erc20.balances = self.erc20.balances ∧
          self'.erc20.totalSupply = self.erc20.totalSupply) ∧
      ∀ e, exec C self ⟨sender, timestamp, chainid, .permit p⟩ = .error e →
        (machine C).step self ⟨sender, timestamp, chainid, .permit p⟩ = self := by
  refine ⟨fun hstruct htyped => ?_, fun owner => ?_,
    fun self sender timestamp chainid p => ⟨fun self' h => ?_, fun e h => ?_⟩⟩
  · refine (@draws C).nodup_map txs _ fun a ha b hb h => ?_
    obtain ⟨-, howner, -, -, hnonce, -⟩ := digest_injective ha hb hstruct htyped h
    exact ⟨howner, congrArg BitVec.toNat hnonce⟩
  · rw [List.range_eq_range']
    exact (@draws C).tickets_eq owner txs ⟨erc20, .empty⟩
  · obtain ⟨hdeadline, hsigner, -, herc20⟩ := permit_eq_ok h
    rw [BitVec.le_def, BitVec.toNat_setWidth_of_le (by decide)] at hdeadline
    refine ⟨hsigner, Ecdsa.recover_ne_zero hsigner, hdeadline, fun owner spender => ?_, ?_, ?_⟩
    · rw [Erc20.allowance, herc20]
      exact update_update_apply ..
    · rw [herc20]
    · rw [herc20]
  · exact Machine.step_of_error (M := machine C) h

/-- Hashes that tell nonces from each other, and signatures of account `1`, where `v` is `27` and
the nonce. -/
def signedNonces : Context where
  eip712 := ⟨"Token", "1"⟩
  this := 200
  keccak256 data := BitVec.ofNat 256
    (256 * data.length + (data.getD 159 0).toNat + (data.getD 65 0).toNat)
  staticCall _ data := .ok (List.replicate 31 0 ++
    [if (data.getD 31 0).toNat + 27 = (data.getD 63 0).toNat then 1 else 0])

/-- Account `1` allows account `2` to spend 50 and later 70; presenting the first permit once more
fails. -/
theorem replay_safety_two : ∃ a b : Accepted, a.nonce = 0 ∧ b.nonce = 1 ∧
    accepted signedNonces ⟨.empty, .empty⟩ [⟨3, 900, 1, .permit ⟨1, 2, 50, 1000, 27, 0, 0⟩⟩,
      ⟨3, 910, 1, .permit ⟨1, 2, 50, 1000, 27, 0, 0⟩⟩,
      ⟨3, 920, 1, .permit ⟨1, 2, 70, 1000, 28, 0, 0⟩⟩] = [a, b] ∧
    ([a, b].map fun a => a.digest signedNonces).Nodup := by
  let a : Accepted := ⟨⟨1, 2, 50, 1000, 27, 0, 0⟩, 0, 1⟩
  let b : Accepted := ⟨⟨1, 2, 70, 1000, 28, 0, 0⟩, 1, 1⟩
  have hlog : accepted signedNonces ⟨.empty, .empty⟩
      [⟨3, 900, 1, .permit ⟨1, 2, 50, 1000, 27, 0, 0⟩⟩,
        ⟨3, 910, 1, .permit ⟨1, 2, 50, 1000, 27, 0, 0⟩⟩,
        ⟨3, 920, 1, .permit ⟨1, 2, 70, 1000, 28, 0, 0⟩⟩] = [a, b] := by decide +kernel
  have hinj {f : Accepted → Bytes}
      (hf : signedNonces.keccak256 (f a) ≠ signedNonces.keccak256 (f b)) :
      Set.InjOn signedNonces.keccak256 {x | ∃ a' ∈ [a, b], x = f a'} := by
    rintro x ⟨a₁, ha₁, rfl⟩ y ⟨a₂, ha₂, rfl⟩ h
    simp only [List.mem_cons, List.not_mem_nil, or_false] at ha₁ ha₂
    rcases ha₁ with rfl | rfl <;> rcases ha₂ with rfl | rfl
    · rfl
    · exact absurd h hf
    · exact absurd h.symm hf
    · rfl
  obtain ⟨hnodup, -⟩ := replay_safety signedNonces .empty
    [⟨3, 900, 1, .permit ⟨1, 2, 50, 1000, 27, 0, 0⟩⟩,
      ⟨3, 910, 1, .permit ⟨1, 2, 50, 1000, 27, 0, 0⟩⟩,
      ⟨3, 920, 1, .permit ⟨1, 2, 70, 1000, 28, 0, 0⟩⟩]
  rw [hlog] at hnodup
  exact ⟨a, b, rfl, rfl, hlog, hnodup (hinj (by decide +kernel)) (hinj (by decide +kernel))⟩

end Erc20Permit

end ContractsStylus
