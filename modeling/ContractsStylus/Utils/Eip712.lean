import ContractsStylus.Utils.Abi

/-!
# EIP-712

Hashes of typed structured data, bound to a contract by a domain separator. `keccak256` comes from
another crate and is a parameter.

Nothing is assumed of the hash here. What can be proved without an assumption is that the bytes that
are hashed determine the domain and the struct, by their lengths alone; whether two messages can
have the same digest is then a question about collisions of the hash, and is asked by those that use
digests.
-/

namespace ContractsStylus

/-- The constants of an implementation of `IEip712`. -/
structure Eip712 where
  NAME : String
  VERSION : String
  deriving DecidableEq, Repr

namespace Eip712

variable (keccak256 : Bytes → B256)

def TYPE_HASH : B256 :=
  keccak256 (Abi.asBytes
    "EIP712Domain(string name,string version,uint256 chainId,address verifyingContract)")

/-- Prefix for ERC-191 version with `0x01`. -/
def TYPED_DATA_PREFIX : Bytes := [0x19, 0x01]

/-- The bytes that `to_typed_data_hash` hashes. -/
def preimage (domainSeparator structHash : B256) : Bytes :=
  TYPED_DATA_PREFIX ++ Abi.wordBytes domainSeparator ++ Abi.wordBytes structHash

def toTypedDataHash (domainSeparator structHash : B256) : B256 :=
  keccak256 (preimage domainSeparator structHash)

def HASHED_NAME (self : Eip712) : B256 := keccak256 (Abi.asBytes self.NAME)

def HASHED_VERSION (self : Eip712) : B256 := keccak256 (Abi.asBytes self.VERSION)

/-- The domain separator of the contract `this` on the chain `chainid`. -/
def domainSeparatorV4 (self : Eip712) (chainid : U64) (this : Address) : B256 :=
  keccak256 (Abi.abiEncode [TYPE_HASH keccak256, self.HASHED_NAME keccak256,
    self.HASHED_VERSION keccak256, chainid.setWidth 256, this.setWidth 256])

def hashTypedDataV4 (self : Eip712) (chainid : U64) (this : Address) (structHash : B256) : B256 :=
  toTypedDataHash keccak256 (self.domainSeparatorV4 keccak256 chainid this) structHash

/-- **Typed data determine the domain and the struct that was hashed.** -/
theorem preimage_injective {domain domain' hash hash' : B256}
    (h : preimage domain hash = preimage domain' hash') : domain = domain' ∧ hash = hash' := by
  obtain ⟨hdomain, hhash⟩ := List.append_inj' h
    ((Abi.length_wordBytes hash).trans (Abi.length_wordBytes hash').symm)
  exact ⟨Abi.wordBytes_injective (List.append_cancel_left hdomain), Abi.wordBytes_injective hhash⟩

end Eip712

end ContractsStylus
