import ContractsStylus.Curve.Curve25519

/-!
# EdDSA

Ed25519 signatures: keys, signing and verification. SHA-512 is a parameter, a function from bytes
to 64 bytes, and hashing a sequence of updates is hashing their concatenation. What panics is
`none`.

## Panics

`ExpandedSecretKey` takes a slice of a hash that has to be long enough, and points are converted
with an inverse that has to exist. Both are unwrapped in the source and `none` here; that neither
happens is proved with the laws of signatures and not assumed in the definitions.

## Reduction

A hash value has 512 bits. It is read as an integer of twice the limbs, as an element of the field
with that many limbs and the same modulus, and converted to a scalar from there. So a scalar field
occurs in two sizes, and what they have in common is the integers modulo the modulus.

## Main definitions

* `Eddsa.Scalar`, `Eddsa.WideScalar` — scalars, with one and with two times the limbs
* `Eddsa.CompressedPointY` — the encoding of points
* `Eddsa.ExpandedSecretKey`, `Eddsa.SigningKey`, `Eddsa.VerifyingKey` — keys
* `Eddsa.SigningKey.sign`, `Eddsa.VerifyingKey.isValid` — signing and verification
-/

namespace ContractsStylus

namespace Eddsa

open Curve25519

/-- Ed25519 scalar. -/
abbrev Scalar := Fr

/-- The modulus of the scalars fits twice as many limbs. -/
theorem modulus_lt : Curve25519FrParam.MODULUS.toNat < 2 ^ (64 * 8) :=
  Uint.toNat_lt_of_le (by norm_num) _

/-- Scalar field parameters with 512-bit inner integer size. -/
def Curve25519Fr512Param : FpParams 8 where
  MODULUS := (Uint.fromUint Curve25519FrParam.MODULUS).get (Uint.isSome_fromUint modulus_lt)
  odd := by
    rw [Uint.toNat_get_fromUint modulus_lt]
    exact Curve25519FrParam.odd
  one_lt := by
    rw [Uint.toNat_get_fromUint modulus_lt]
    exact Curve25519FrParam.one_lt

/-- Ed25519 scalar used for the reduction of hash values. -/
abbrev WideScalar := Fp.Element Curve25519Fr512Param

abbrev ProjectivePoint := Te.Projective Fq

abbrev AffinePoint := Te.Affine Fq

namespace ProjectivePoint

def generator : ProjectivePoint := Te.Projective.generator Curve25519Config

/-- `Mul` by a scalar. -/
def mul (self : ProjectivePoint) (other : Scalar) : ProjectivePoint :=
  self.mulBigint Curve25519Config other.intoBigint.bitBeIter

/-- `Add`. -/
def add (self other : ProjectivePoint) : ProjectivePoint :=
  self.addAssign Curve25519Config other

/-- `into_affine`. -/
def intoAffine (self : ProjectivePoint) : Option AffinePoint := Te.Affine.ofProjective self

end ProjectivePoint

/-! ### Points as bytes -/

/-- The `y`-coordinate of a point, with the sign of `x` in the high bit. -/
structure CompressedPointY where
  bytes : Vector U8 32
  deriving DecidableEq

/-- `From<AffinePoint>`. -/
def CompressedPointY.ofAffine (point : AffinePoint) : Option CompressedPointY :=
  let s := point.y.intoBigint.intoBytesLe
  -- the `y`-coordinate should be 32 bytes
  if h : s.length = 32 then
    let s : Vector U8 32 := ⟨s.toArray, List.size_toArray.trans h⟩
    let isOdd := point.x.intoBigint.isOdd (by decide)
    some ⟨s.set 31 (s[31] ^^^ (BitVec.ofBool isOdd).setWidth 8 <<< 7)⟩
  else none

/-- What is hashed of a compressed point. -/
def CompressedPointY.asRef (self : CompressedPointY) : Bytes := self.bytes.toList

/-! ### Keys -/

abbrev SecretKey := Vector U8 32

/-- Clamps the little endian representation of a 32-byte integer. -/
def clampInteger (bytes : Vector U8 32) : Vector U8 32 :=
  let bytes := bytes.set 0 (bytes[0] &&& 0b11111000)
  let bytes := bytes.set 31 (bytes[31] &&& 0b01111111)
  bytes.set 31 (bytes[31] ||| 0b01000000)

/-- The secret scalar and the domain separator used for generating signatures. -/
structure ExpandedSecretKey where
  scalar : Scalar
  /-- The domain separator used when hashing the message to generate the pseudorandom `r`. -/
  hashPrefix : Vector U8 32

/-- Construct a secret key from a hash, of which the first 64 bytes are used. -/
def ExpandedSecretKey.fromBytes (bytes : Bytes) : Option ExpandedSecretKey :=
  if h : 64 ≤ bytes.length then do
    let scalarBytes : Vector U8 32 := .ofFn fun i => bytes[i.val]
    let hashPrefix : Vector U8 32 := .ofFn fun i => bytes[32 + i.val]
    let num : Uint 4 ← Uint.fromBytesLe (clampInteger scalarBytes).toList
    some ⟨.fromBigint num, hashPrefix⟩
  else none

/-- Key for signature verification. -/
structure VerifyingKey where
  point : ProjectivePoint

/-- `From<ExpandedSecretKey>`. -/
def VerifyingKey.ofExpandedSecretKey (value : ExpandedSecretKey) : VerifyingKey :=
  ⟨ProjectivePoint.generator.mul value.scalar⟩

/-- Signing key, whose verifying key is always the public key of its secret key. -/
structure SigningKey where
  signingKey : ExpandedSecretKey
  verifyingKey : VerifyingKey
  invariant : verifyingKey = .ofExpandedSecretKey signingKey

structure Signature where
  R : ProjectivePoint
  s : Scalar

section Sha512

variable (sha512 : Bytes → Vector U8 64)

/-- `From<&SecretKey>`. -/
def ExpandedSecretKey.ofSecretKey (secretKey : SecretKey) : Option ExpandedSecretKey :=
  fromBytes (sha512 secretKey.toList).toList

/-- Construct a signing key from a secret key. -/
def SigningKey.fromBytes (secretKey : SecretKey) : Option SigningKey := do
  let signingKey ← ExpandedSecretKey.ofSecretKey sha512 secretKey
  some ⟨signingKey, .ofExpandedSecretKey signingKey, rfl⟩

/-! ### Signing and verification -/

/-- Sign a message with this signing key's secret key. -/
def SigningKey.sign (self : SigningKey) (message : Bytes) : Option Signature := do
  let h := sha512 (self.signingKey.hashPrefix.toList ++ message)
  let num : Uint 8 ← Uint.fromBytesLe h.toList
  let r : WideScalar := .fromBigint num
  let r : Scalar ← Fp.Element.fromFp r
  let R := ProjectivePoint.generator.mul r
  let rBytes ← CompressedPointY.ofAffine (← R.intoAffine)
  let aBytes ← CompressedPointY.ofAffine (← self.verifyingKey.point.intoAffine)
  let h := sha512 (rBytes.asRef ++ aBytes.asRef ++ message)
  let num : Uint 8 ← Uint.fromBytesLe h.toList
  let k : WideScalar := .fromBigint num
  let k : Scalar ← Fp.Element.fromFp k
  let s := k * self.signingKey.scalar + r
  some ⟨R, s⟩

namespace VerifyingKey

/-- The expected `R` of the signature. -/
def computeR (self : VerifyingKey) (signature : Signature) (message : Bytes) :
    Option ProjectivePoint := do
  let R := signature.R
  let A := self.point
  let rBytes ← CompressedPointY.ofAffine (← R.intoAffine)
  let aBytes ← CompressedPointY.ofAffine (← A.intoAffine)
  let h := sha512 (rBytes.asRef ++ aBytes.asRef ++ message)
  let num : Uint 8 ← Uint.fromBytesLe h.toList
  let k : WideScalar := .fromBigint num
  let k : Scalar ← Fp.Element.fromFp k
  -- compute `-[k]A + [s]B = R`
  some ((A.mul (-k)).add (ProjectivePoint.generator.mul signature.s))

/-- Verify a signature on a message with this public key. -/
def isValid (self : VerifyingKey) (message : Bytes) (signature : Signature) : Option Bool := do
  let expectedR ← self.computeR sha512 signature message
  some (expectedR.eq signature.R)

end VerifyingKey

/-- Verify a signature on a message with this signing key's public key. -/
def SigningKey.isValidSignature (self : SigningKey) (message : Bytes) (signature : Signature) :
    Option Bool :=
  self.verifyingKey.isValid sha512 message signature

end Sha512

end Eddsa

end ContractsStylus
