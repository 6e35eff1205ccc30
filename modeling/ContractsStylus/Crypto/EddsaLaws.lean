import ContractsStylus.Crypto.Eddsa

/-!
# Signatures are accepted

Signing and verification hash the same bytes, since the bytes of a point do not depend on its
coordinates. What remains is an equation between multiples of the generator, which holds because
these depend on scalars modulo its order.

## What is computed from what

`Challenge` is what both sides compute: the bytes of the commitment, of the key and of the message,
hashed and reduced. `sign_eq` and `computeR_eq` reduce the two functions to it and to multiples of
the generator, as points of the group and no longer as coordinates. The rest is one line in a group
whose elements are annihilated by the modulus, which is where the order of the generator is needed.

The hash is any function to bytes of the right length, and nothing depends on what it is.

## Main definitions

* `Eddsa.Challenge` — the scalar that signing and verification compute from points and a message

## Main results

* `Eddsa.exists_reduced` — hash values are reduced modulo the order
* `Eddsa.SigningKey.sign_eq`, `Eddsa.VerifyingKey.computeR_eq` — signing and verification
* `Eddsa.VerifyingKey.isValid_iff` — verification is an equation between points
* `Eddsa.sign_accepted` — signatures are accepted
-/

namespace ContractsStylus

namespace Eddsa

open Curve25519 Te

/-! ### Scalars

The scalar field occurs with four limbs and with eight, and the two have the same modulus. -/

theorem p_wide : Curve25519Fr512Param.p = Curve25519FrParam.p := Uint.toNat_get_fromUint modulus_lt

/-- **A hash value is reduced** modulo the order of the scalars, whatever bytes it has. -/
theorem exists_reduced (digest : Vector U8 64) : ∃ (num : Uint 8) (k : Scalar),
    Uint.fromBytesLe digest.toList = some num ∧
    Fp.Element.fromFp (.fromBigint num : WideScalar) = some k ∧
    k.toZMod = (leValue digest.toList : ZMod Curve25519FrParam.p) := by
  obtain ⟨num, hnum, hvalue⟩ := Uint.exists_fromBytesLe (N := 8) digest (by norm_num)
  have hfit : Curve25519Fr512Param.p ≤ 2 ^ (64 * 4) := by
    rw [p_wide]
    exact Curve25519FrParam.p_lt_W.le
  obtain ⟨k, hk, hcast⟩ := Fp.Element.toZMod_fromFp (P := Curve25519FrParam) hfit
    (.fromBigint num : WideScalar)
  refine ⟨num, k, hnum, hk, ?_⟩
  rw [hcast, Fp.Element.intoBigint_fromBigint, hvalue, p_wide, ZMod.natCast_mod]

/-- Multiples of a point of that order depend on numbers modulo the order. -/
theorem smul_eq_smul {A : Point} (hA : l • A = 0) {m n : ℕ}
    (h : (m : ZMod Curve25519FrParam.p) = n) : m • A = n • A := by
  rw [p_Fr, ZMod.natCast_eq_natCast_iff] at h
  rw [nsmul_eq_mod_nsmul m hA, nsmul_eq_mod_nsmul n hA, h]

/-! ### Points -/

theorem Represents.mul {p : ProjectivePoint} {A : Point} (h : p.Represents A) (k : Scalar) :
    (ProjectivePoint.mul p k).Represents (k.intoBigint.toNat • A) := by
  rw [← Uint.ofBitsBe_bitBeIter]
  exact h.mulProjective _

theorem exists_compressed (point : AffinePoint) :
    ∃ c, CompressedPointY.ofAffine point = some c :=
  ⟨_, dif_pos (Uint.length_intoBytesLe _)⟩

theorem intoAffine_eq {p : ProjectivePoint} {A : Point} (h : p.Represents A) :
    p.intoAffine = some ⟨A.x, A.y⟩ := (Projective.represents_iff.mp h).2

/-! ### Signing and verification -/

variable (sha512 : Bytes → Vector U8 64)

/-- The scalar `k` of the points `R` and `A` and a message. -/
def Challenge (R A : Point) (message : Bytes) (k : Scalar) : Prop :=
  ∃ (rBytes aBytes : CompressedPointY) (num : Uint 8),
    CompressedPointY.ofAffine ⟨R.x, R.y⟩ = some rBytes ∧
    CompressedPointY.ofAffine ⟨A.x, A.y⟩ = some aBytes ∧
    Uint.fromBytesLe (sha512 (rBytes.asRef ++ aBytes.asRef ++ message)).toList = some num ∧
    Fp.Element.fromFp (.fromBigint num : WideScalar) = some k

theorem exists_challenge (R A : Point) (message : Bytes) :
    ∃ k, Challenge sha512 R A message k := by
  obtain ⟨rBytes, hr⟩ := exists_compressed ⟨R.x, R.y⟩
  obtain ⟨aBytes, ha⟩ := exists_compressed ⟨A.x, A.y⟩
  obtain ⟨num, k, hnum, hk, -⟩ :=
    exists_reduced (sha512 (rBytes.asRef ++ aBytes.asRef ++ message))
  exact ⟨k, rBytes, aBytes, num, hr, ha, hnum, hk⟩

variable {R A B : Point} {k : Scalar}

/-- **Verification** computes the challenge of the points and combines these. -/
theorem VerifyingKey.computeR_eq {self : VerifyingKey} {signature : Signature} {message : Bytes}
    (hA : self.point.Represents A) (hR : signature.R.Represents R)
    (hk : Challenge sha512 R A message k) :
    self.computeR sha512 signature message =
      some ((self.point.mul (-k)).add (ProjectivePoint.generator.mul signature.s)) := by
  obtain ⟨rBytes, aBytes, num, hr, ha, hnum, hk⟩ := hk
  simp only [computeR, Option.bind_eq_bind, Option.bind_eq_some_iff]
  exact ⟨_, intoAffine_eq hR, rBytes, hr, _, intoAffine_eq hA, aBytes, ha, num, hnum, k, hk, rfl⟩

/-- **Signing** computes the challenge of the same points. -/
theorem SigningKey.sign_eq (hB : ProjectivePoint.generator.Represents B) (self : SigningKey)
    (hA : self.verifyingKey.point.Represents A) (message : Bytes) : ∃ r k : Scalar,
    Challenge sha512 (r.intoBigint.toNat • B) A message k ∧
    self.sign sha512 message =
      some ⟨ProjectivePoint.generator.mul r, k * self.signingKey.scalar + r⟩ := by
  obtain ⟨rNum, r, hrNum, hr, -⟩ :=
    exists_reduced (sha512 (self.signingKey.hashPrefix.toList ++ message))
  obtain ⟨k, hk⟩ := exists_challenge sha512 (r.intoBigint.toNat • B) A message
  refine ⟨r, k, hk, ?_⟩
  obtain ⟨rBytes, aBytes, num, hrBytes, haBytes, hnum, hk⟩ := hk
  simp only [SigningKey.sign, Option.bind_eq_bind, Option.bind_eq_some_iff]
  exact ⟨rNum, hrNum, r, hr, _, intoAffine_eq (Represents.mul hB r), rBytes, hrBytes, _,
    intoAffine_eq hA, aBytes, haBytes, num, hnum, k, hk, rfl⟩

/-- **Verification is an equation** between points, on all their representatives. -/
theorem VerifyingKey.isValid_iff (hB : ProjectivePoint.generator.Represents B)
    {self : VerifyingKey} (hA : self.point.Represents A) {message : Bytes}
    (signature : Signature) (hR : signature.R.Represents R) (hk : Challenge sha512 R A message k) :
    ∃ valid, self.isValid sha512 message signature = some valid ∧
      (valid = true ↔ (-k).intoBigint.toNat • A + signature.s.intoBigint.toNat • B = R) := by
  have hsum := (Represents.mul hA (-k)).addAssign (Represents.mul hB signature.s)
  refine ⟨_, ?_, hsum.eq_iff hR⟩
  rw [isValid, computeR_eq sha512 hA hR hk]
  rfl

/-- The equation holds when the scalars are those of a signature. -/
theorem verification_equation (hB : l • B = 0) (a k r : Scalar) :
    (-k).intoBigint.toNat • a.intoBigint.toNat • B + (k * a + r).intoBigint.toNat • B =
      r.intoBigint.toNat • B := by
  rw [← mul_nsmul, ← add_nsmul]
  refine smul_eq_smul hB ?_
  rw [Nat.cast_add, Nat.cast_mul]
  show a.toZMod * (-k).toZMod + (k * a + r).toZMod = r.toZMod
  rw [Fp.Element.toZMod_neg, Fp.Element.toZMod_add, Fp.Element.toZMod_mul]
  ring

/-- The lowest three bits and the highest two are those of a clamped integer. -/
theorem clamped_eq {low mid high : ℕ} (hlt : low < 256) (hlow : low % 2 ^ 3 = 0)
    (hmid : mid < 256 ^ 30) (hge : 64 ≤ high) (hhigh : high < 128) :
    ∃ m < 2 ^ 251, low + 256 * mid + high * 256 ^ 31 = 2 ^ 254 + 8 * m := by
  obtain ⟨a, rfl⟩ : ∃ a, low = 8 * a := ⟨low / 8, by omega⟩
  obtain ⟨b, rfl⟩ := Nat.exists_eq_add_of_le hge
  refine ⟨a + 32 * mid + b * (32 * 256 ^ 30), ?_, by ring⟩
  omega

/-- The bytes of a clamped integer at both ends. -/
theorem clampInteger_bytes (bytes : Vector U8 32) :
    ((clampInteger bytes).get 0).toNat % 2 ^ 3 = 0 ∧ 64 ≤ ((clampInteger bytes).get 31).toNat ∧
      ((clampInteger bytes).get 31).toNat < 128 := by
  have hfirst : (clampInteger bytes).get 0 = bytes.get 0 &&& 0b11111000 := by
    show (clampInteger bytes)[0] = bytes[0] &&& 0b11111000
    simp [clampInteger]
  have hlast : (clampInteger bytes).get 31 = bytes.get 31 &&& 0b01111111 ||| 0b01000000 := by
    show (clampInteger bytes)[31] = bytes[31] &&& 0b01111111 ||| 0b01000000
    simp [clampInteger]
  rw [hfirst, hlast, BitVec.toNat_and, BitVec.toNat_or, BitVec.toNat_and, Nat.and_mod_two_pow]
  refine ⟨Nat.and_zero _, Nat.right_le_or, ?_⟩
  exact Nat.or_lt_two_pow (n := 7) (Nat.and_lt_two_pow _ (by decide)) (by decide)

/-- **A clamped integer** is `2 ^ 254` plus a multiple of 8, with 255 bits. -/
theorem leValue_clampInteger (bytes : Vector U8 32) :
    ∃ m < 2 ^ 251, leValue (clampInteger bytes).toList = 2 ^ 254 + 8 * m := by
  obtain ⟨hlow, hge, hhigh⟩ := clampInteger_bytes bytes
  generalize clampInteger bytes = clamped at hlow hge hhigh
  have hdigit : ∀ i : Fin 32, clamped.toList.getD i 0 = clamped.get i := by
    intro i
    rw [List.getD_eq_getElem _ _ (by simp), Vector.getElem_toList]
    rfl
  have hends : ∀ d : ℕ → ℕ, positional 256 d 32 =
      d 0 + 256 * positional 256 (fun i => d (i + 1)) 30 + d 31 * 256 ^ 31 := by
    intro d
    rw [positional_succ, positional_low (by norm_num)]
  have hfirst : clamped.toList.getD 0 0 = clamped.get 0 := hdigit 0
  have hlast : clamped.toList.getD 31 0 = clamped.get 31 := hdigit 31
  rw [leValue_eq, Vector.length_toList, hends, hfirst, hlast]
  exact clamped_eq (clamped.get 0).isLt hlow (positional_lt fun _ _ => BitVec.isLt _) hge hhigh

/-- **A secret key** is made of any hash. Its scalar is the clamped first half. -/
theorem ExpandedSecretKey.exists_fromBytes {bytes : Bytes} (h : 64 ≤ bytes.length) :
    ∃ (key : ExpandedSecretKey) (half : Vector U8 32), fromBytes bytes = some key ∧
      half.toList = bytes.take 32 ∧ key.hashPrefix.toList = (bytes.drop 32).take 32 ∧
      key.scalar.toZMod = (leValue (clampInteger half).toList : ZMod Curve25519FrParam.p) := by
  obtain ⟨num, hnum, hvalue⟩ := Uint.exists_fromBytesLe (N := 4)
    (clampInteger (.ofFn fun i => bytes[i.val])) (by norm_num)
  refine ⟨⟨.fromBigint num, .ofFn fun i => bytes[32 + i.val]⟩, .ofFn fun i => bytes[i.val],
    (dif_pos h).trans ?_, ?_, ?_, ?_⟩
  · simp only [hnum]
    rfl
  · refine List.ext_getElem (by simp; omega) fun i hi hi' => ?_
    rw [Vector.getElem_toList, Vector.getElem_ofFn, List.getElem_take]
  · refine List.ext_getElem (by simp; omega) fun i hi hi' => ?_
    rw [Vector.getElem_toList, Vector.getElem_ofFn, List.getElem_take, List.getElem_drop]
  · rw [Fp.Element.toZMod_fromBigint, hvalue]

theorem SigningKey.exists_fromBytes (sha512 : Bytes → Vector U8 64) (secretKey : SecretKey) :
    ∃ key, fromBytes sha512 secretKey = some key := by
  have hlength : 64 ≤ (sha512 secretKey.toList).toList.length := Vector.length_toList.ge
  obtain ⟨key, -, hkey, -⟩ := ExpandedSecretKey.exists_fromBytes hlength
  refine ⟨⟨key, _, rfl⟩, ?_⟩
  rw [fromBytes, ExpandedSecretKey.ofSecretKey, hkey]
  rfl

/-- **Signatures are accepted.** For every hash function, every secret key and every message, the
signing key exists, it signs the message, and verification with its verifying key accepts. -/
theorem sign_accepted (sha512 : Bytes → Vector U8 64) (secretKey : SecretKey) (message : Bytes) :
    ∃ key signature, SigningKey.fromBytes sha512 secretKey = some key ∧
      key.sign sha512 message = some signature ∧
      key.verifyingKey.isValid sha512 message signature = some true := by
  obtain ⟨key, hkey⟩ := SigningKey.exists_fromBytes sha512 secretKey
  obtain ⟨B, hgenerator⟩ := exists_generator
  have hB : ProjectivePoint.generator.Represents B := hgenerator.ofAffine
  have hA : key.verifyingKey.point.Represents (key.signingKey.scalar.intoBigint.toNat • B) := by
    rw [key.invariant]
    exact Represents.mul hB _
  obtain ⟨r, k, hk, hsign⟩ := SigningKey.sign_eq sha512 hB key hA message
  obtain ⟨valid, hvalid, hiff⟩ := VerifyingKey.isValid_iff sha512 hB hA
    ⟨ProjectivePoint.generator.mul r, k * key.signingKey.scalar + r⟩ (Represents.mul hB r) hk
  have htrue := hiff.mpr (verification_equation (smul_generator hgenerator) _ k r)
  exact ⟨key, _, hkey, hsign, by rw [hvalid, htrue]⟩

end Eddsa

end ContractsStylus
