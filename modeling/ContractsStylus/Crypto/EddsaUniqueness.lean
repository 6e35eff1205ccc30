import ContractsStylus.Crypto.CompressedPoints
import ContractsStylus.Curve.EdwardsInstances
import ContractsStylus.Library.ChallengeResponse

/-!
# Signatures are unique

What is accepted satisfies an equation between the points, whatever coordinates came with it. The
scalar of a signature is below the order of the generator, so the bytes of `R` leave one signature
of a message. The scalar of a secret key is not zero modulo the order, which is prime, so signatures
with the same `R` have the same challenge only if they are equal, and otherwise give the secret
scalar away.

## From points to scalars

An accepted signature is an equation between points, and points on the curve are multiples of the
generator only if they are in its subgroup. The key that is verified with may be any point of the
curve, so uniqueness is proved without a logarithm of it: two signatures with one commitment have
the same multiple of the key on one side, and the generator has the order that the scalars have.

For a key that was derived from a secret there is a logarithm. Clamped scalars are multiples of
eight below two to the 255, and none of those is a multiple of the modulus but zero, which the
highest bit excludes.

## Main definitions

* `Eddsa.Signature.toBytes`, `Eddsa.VerifyingKey.toBytes` — signatures and keys as bytes
* `Eddsa.digest` — the challenge of bytes

## Main results

* `Eddsa.VerifyingKey.accepts_of_isValid` — the equation of an accepted signature
* `Eddsa.clamped_ne_zero` — the scalar of a secret key
* `Eddsa.signatures_unique` — one signature for the bytes of `R`
* `Eddsa.reused_commitment` — two signatures with the same `R`
-/

namespace ContractsStylus

namespace Eddsa

open Curve25519 Te ChallengeResponse

/-! ### Signatures and keys as bytes

What is hashed and compared are bytes: thirty-two for a point, and as many for a scalar. -/

/-- Converts the signature to a 64-byte array: the compressed `R`, and then `s`. -/
def Signature.toBytes (self : Signature) : Option (Vector U8 64) := do
  let rCompressed ← CompressedPointY.ofAffine (← self.R.intoAffine)
  let sBytes := self.s.intoBigint.intoBytesLe
  let bytes := rCompressed.asRef ++ sBytes.take 32
  -- the two halves fill the array
  if h : bytes.length = 64 then some ⟨bytes.toArray, List.size_toArray.trans h⟩ else none

/-- Construct a signature from affine point `R` and scalar `s`. -/
def Signature.fromAffineRS (R : AffinePoint) (s : Scalar) : Signature := ⟨.ofAffine R, s⟩

/-- Construct verifying key from affine point. -/
def VerifyingKey.fromAffine (point : AffinePoint) : VerifyingKey := ⟨.ofAffine point⟩

/-- Convert the verifying key to a compressed byte representation. -/
def VerifyingKey.toBytes (self : VerifyingKey) : Option (Vector U8 32) := do
  let compressed ← CompressedPointY.ofAffine (← self.point.intoAffine)
  some compressed.bytes

theorem CompressedPointY.length_asRef (c : CompressedPointY) : c.asRef.length = 32 :=
  Vector.length_toList

theorem CompressedPointY.asRef_injective {c d : CompressedPointY} (h : c.asRef = d.asRef) :
    c = d := by
  cases c
  cases d
  rw [mk.injEq]
  exact Vector.toList_inj.mp h

/-- **The bytes of a signature** are those of its point and of its scalar. -/
theorem Signature.toBytes_eq {self : Signature} {point : AffinePoint} {c : CompressedPointY}
    (hpoint : self.R.intoAffine = some point) (hc : CompressedPointY.ofAffine point = some c) :
    ∃ b, self.toBytes = some b ∧ b.toList.take 32 = c.asRef ∧
      b.toList.drop 32 = self.s.intoBigint.intoBytesLe := by
  have hlength : self.s.intoBigint.intoBytesLe.length = 32 := Uint.length_intoBytesLe _
  have htake : self.s.intoBigint.intoBytesLe.take 32 = self.s.intoBigint.intoBytesLe :=
    List.take_of_length_le hlength.le
  have h64 : (c.asRef ++ self.s.intoBigint.intoBytesLe.take 32).length = 64 := by
    rw [htake, List.length_append, c.length_asRef, hlength]
  refine ⟨⟨_, List.size_toArray.trans h64⟩, ?_, ?_, ?_⟩
  · rw [toBytes, hpoint, Option.bind_eq_bind, Option.bind_some, hc, Option.bind_eq_bind,
      Option.bind_some]
    exact dif_pos h64
  · show (c.asRef ++ self.s.intoBigint.intoBytesLe.take 32).take 32 = _
    rw [List.take_append_of_le_length c.length_asRef.ge, List.take_of_length_le c.length_asRef.le]
  · show (c.asRef ++ self.s.intoBigint.intoBytesLe.take 32).drop 32 = _
    rw [List.drop_left' c.length_asRef, htake]

/-- The scalar of a signature, from its bytes. -/
theorem leValue_toBytes {self : Signature} {b : Vector U8 64}
    (h : b.toList.drop 32 = self.s.intoBigint.intoBytesLe) :
    leValue (b.toList.drop 32) = self.s.toZMod.val := by
  rw [h, Uint.leValue_intoBytesLe, Fp.Element.val_toZMod]

theorem eq_of_halves {b c : Vector U8 64} (htake : b.toList.take 32 = c.toList.take 32)
    (hdrop : b.toList.drop 32 = c.toList.drop 32) : b = c :=
  Vector.toList_inj.mp (by
    rw [← List.take_append_drop 32 b.toList, htake, hdrop, List.take_append_drop])

/-! ### Accepted signatures

The bytes of `R` determine its affine value, and so the point. The challenge depends on these bytes,
those of the key and the message only. -/

/-- The challenge of the bytes of `R`, the bytes of the key and a message. -/
def digest (sha512 : Bytes → Vector U8 64) (commitment key message : Bytes) :
    ZMod Curve25519FrParam.p :=
  leValue (sha512 (commitment ++ key ++ message)).toList

/-- What is equal to a point has its affine value. -/
theorem intoAffine_of_eq {e q : ProjectivePoint} {E : Point} {point : AffinePoint}
    (hE : e.Represents E) (heq : e.eq q = true) (hpoint : q.intoAffine = some point) :
    point = ⟨E.x, E.y⟩ := by
  rw [Projective.eq] at heq
  have hz : q.z ≠ 0 := fun hz => by
    rw [ProjectivePoint.intoAffine, Affine.ofProjective_eq_none hz] at hpoint
    exact Option.some_ne_none _ hpoint.symm
  rw [ProjectivePoint.intoAffine, Affine.ofProjective_eq hz, Option.some_inj] at hpoint
  rw [← hpoint, Affine.mk.injEq, div_eq_iff hz, div_eq_iff hz]
  by_cases hzero : e.isZero = true
  · -- both are the identity
    rw [if_pos hzero] at heq
    simp only [Projective.isZero, Bool.and_eq_true, decide_eq_true_iff] at heq
    rw [hE.isZero_iff.mp hzero]
    exact ⟨heq.1.1.1.trans (zero_mul _).symm, heq.1.1.2.trans (one_mul _).symm⟩
  · rw [if_neg hzero] at heq
    split at heq
    · exact absurd heq Bool.false_ne_true
    · rw [Bool.and_eq_true, decide_eq_true_iff, decide_eq_true_iff, hE.x_eq, hE.y_eq] at heq
      have hcancel : ∀ u v : Fq, u * e.z * q.z = v * e.z → v = u * q.z := by
        intro u v h
        refine mul_right_cancel₀ hE.z_ne_zero (h.symm.trans ?_)
        ring
      exact ⟨hcancel _ _ heq.1, hcancel _ _ heq.2⟩

/-- Points with equal bytes are equal. -/
theorem eq_of_compressed {R R' : Point} {r r' : CompressedPointY}
    (hr : CompressedPointY.ofAffine ⟨R.x, R.y⟩ = some r)
    (hr' : CompressedPointY.ofAffine ⟨R'.x, R'.y⟩ = some r') (h : r.asRef = r'.asRef) : R = R' := by
  have hN : 0 < 4 := by norm_num
  have hbytes : CompressedPointY.ofAffine ⟨R.x, R.y⟩ = CompressedPointY.ofAffine ⟨R'.x, R'.y⟩ := by
    rw [hr, hr', CompressedPointY.asRef_injective h]
  obtain ⟨hy, hparity⟩ := CompressedPointY.eq_of_ofAffine hN hbytes
  have hequation := R.equation
  rw [show R.y = R'.y from hy] at hequation
  refine Edwards.Point.ext ?_ hy
  rcases Edwards.eq_or_eq_neg_of_equation hequation R'.equation with hx | hx
  · exact hx
  · -- of two negatives only zero has one parity
    by_cases hzero : R'.x = 0
    · rw [hx, hzero, neg_zero]
    · simp only [hx] at hparity
      exact absurd hparity (Fp.Element.isOdd_neg hN hzero)

instance instFactPrimeFr : Fact Curve25519FrParam.p.Prime := ⟨p_Fr ▸ prime_orders l (by simp)⟩

theorem addOrderOf_eq_p {B : Point} (hB : Curve25519Config.GENERATOR.Represents B) :
    addOrderOf B = Curve25519FrParam.p := by
  rw [p_Fr, addOrderOf_generator hB]

section Accepted

variable {sha512 : Bytes → Vector U8 64} {key : VerifyingKey} {A B : Point} {message : Bytes}

theorem toZMod_challenge {num : Uint 8} {k : Scalar} {digest : Vector U8 64}
    (hnum : Uint.fromBytesLe digest.toList = some num)
    (hk : Fp.Element.fromFp (.fromBigint num : WideScalar) = some k) :
    k.toZMod = (leValue digest.toList : ZMod Curve25519FrParam.p) := by
  obtain ⟨num', k', hnum', hk', hvalue⟩ := exists_reduced digest
  obtain rfl := Option.some_inj.mp (hnum.symm.trans hnum')
  obtain rfl := Option.some_inj.mp (hk.symm.trans hk')
  exact hvalue

theorem VerifyingKey.exists_toBytes (hA : key.point.Represents A) :
    ∃ (a : CompressedPointY), CompressedPointY.ofAffine ⟨A.x, A.y⟩ = some a ∧
      key.toBytes = some a.bytes := by
  obtain ⟨a, ha⟩ := exists_compressed ⟨A.x, A.y⟩
  refine ⟨a, ha, ?_⟩
  rw [toBytes, intoAffine_eq hA, Option.bind_eq_bind, Option.bind_some, ha]
  rfl

/-- **An accepted signature satisfies the equation**, with a point that has the affine value of its
`R` and the bytes that are hashed. The coordinates of `R` need not be those of a point. -/
theorem VerifyingKey.accepts_of_isValid (hB : ProjectivePoint.generator.Represents B)
    (hA : key.point.Represents A) {signature : Signature}
    (hvalid : key.isValid sha512 message signature = some true) :
    ∃ (R : Point) (r : CompressedPointY) (b : Vector U8 64) (keyBytes : Vector U8 32),
      CompressedPointY.ofAffine ⟨R.x, R.y⟩ = some r ∧ signature.toBytes = some b ∧
      b.toList.take 32 = r.asRef ∧ b.toList.drop 32 = signature.s.intoBigint.intoBytesLe ∧
      key.toBytes = some keyBytes ∧
      Accepts B A R (digest sha512 (b.toList.take 32) keyBytes.toList message)
        signature.s.toZMod := by
  simp only [isValid, computeR, Option.bind_eq_bind, Option.bind_eq_some_iff,
    Option.some_inj] at hvalid
  obtain ⟨_, ⟨point, hpoint, r, hr, _, haffine, a, ha, num, hnum, k, hk, rfl⟩, heq⟩ := hvalid
  obtain rfl := Option.some_inj.mp ((intoAffine_eq hA).symm.trans haffine)
  obtain ⟨a', ha', hkey⟩ := VerifyingKey.exists_toBytes hA
  obtain rfl := Option.some_inj.mp (ha.symm.trans ha')
  have hsum := (Represents.mul hA (-k)).addAssign (Represents.mul hB signature.s)
  obtain rfl := intoAffine_of_eq hsum heq hpoint
  obtain ⟨b, hb, htake, hdrop⟩ := Signature.toBytes_eq hpoint hr
  refine ⟨_, r, b, a.bytes, hr, hb, htake, hdrop, hkey, ?_⟩
  rw [htake, Accepts, digest, ← CompressedPointY.asRef, ← toZMod_challenge hnum hk,
    ← Fp.Element.toZMod_neg, Fp.Element.val_toZMod, Fp.Element.val_toZMod]

/-- A signature that satisfies the equation is accepted, if its `R` is a point. -/
theorem VerifyingKey.isValid_of_accepts (hB : ProjectivePoint.generator.Represents B)
    (hA : key.point.Represents A) {signature : Signature} {R : Point}
    (hR : signature.R.Represents R) {r : CompressedPointY}
    (hr : CompressedPointY.ofAffine ⟨R.x, R.y⟩ = some r) {keyBytes : Vector U8 32}
    (hkey : key.toBytes = some keyBytes)
    (h : Accepts B A R (digest sha512 r.asRef keyBytes.toList message) signature.s.toZMod) :
    key.isValid sha512 message signature = some true := by
  obtain ⟨k, r', a, num, hr', ha, hnum, hk⟩ := exists_challenge sha512 R A message
  obtain ⟨a', ha', hkey'⟩ := VerifyingKey.exists_toBytes hA
  obtain rfl := Option.some_inj.mp (ha.symm.trans ha')
  obtain rfl := Option.some_inj.mp (hkey.symm.trans hkey')
  obtain rfl := Option.some_inj.mp (hr.symm.trans hr')
  obtain ⟨valid, hvalid, hiff⟩ := VerifyingKey.isValid_iff sha512 hB hA signature hR
    ⟨r, a, num, hr, ha, hnum, hk⟩
  rw [Accepts, digest, ← CompressedPointY.asRef, ← toZMod_challenge hnum hk,
    ← Fp.Element.toZMod_neg, Fp.Element.val_toZMod, Fp.Element.val_toZMod] at h
  rw [hvalid, hiff.mpr h]

/-- **One signature for the bytes of `R`.** Let a key be any point of the curve, in any coordinates,
of small order or not. Two signatures of one message that it accepts are equal as bytes, as soon as
their first halves are equal, whatever coordinates they came with. The second half is a number below
the order of the generator, so no multiple of the order can be added to it. -/
theorem signatures_unique (hA : key.point.Represents A) {σ τ : Signature}
    (hσ : key.isValid sha512 message σ = some true)
    (hτ : key.isValid sha512 message τ = some true) :
    ∃ b c, σ.toBytes = some b ∧ τ.toBytes = some c ∧
      (b.toList.take 32 = c.toList.take 32 → b = c) ∧
      leValue (b.toList.drop 32) < Curve25519FrParam.p := by
  obtain ⟨B, hB⟩ := exists_generator
  obtain ⟨R, r, b, keyBytes, hr, hb, htake, hs, hkey, haccepts⟩ :=
    VerifyingKey.accepts_of_isValid hB.ofAffine hA hσ
  obtain ⟨R', r', c, keyBytes', hr', hc, htake', hs', hkey', haccepts'⟩ :=
    VerifyingKey.accepts_of_isValid hB.ofAffine hA hτ
  refine ⟨b, c, hb, hc, fun heq => ?_, ?_⟩
  · obtain rfl := Option.some_inj.mp (hkey.symm.trans hkey')
    obtain rfl := eq_of_compressed hr hr' (by rw [← htake, ← htake', heq])
    rw [← heq] at haccepts'
    have hscalar := haccepts.response_unique (addOrderOf_eq_p hB) haccepts'
    exact eq_of_halves heq (by rw [hs, hs', Fp.Element.toZMod_injective hscalar])
  · rw [leValue_toBytes hs]
    exact ZMod.val_lt _

/-- The generator as a key, a hash function that is zero, and one signature in two representations
of its `R`. -/
theorem signatures_unique_generator :
    ∃ b c, (Signature.mk (ProjectivePoint.generator.mul 1) 1).toBytes = some b ∧
      (Signature.fromAffineRS Curve25519Config.GENERATOR 1).toBytes = some c ∧
      (b.toList.take 32 = c.toList.take 32 → b = c) ∧
      leValue (b.toList.drop 32) < Curve25519FrParam.p := by
  obtain ⟨B, hB⟩ := exists_generator
  have hA : (VerifyingKey.fromAffine Curve25519Config.GENERATOR).point.Represents B := hB.ofAffine
  obtain ⟨a, ha, hkey⟩ := VerifyingKey.exists_toBytes hA
  have hone : (1 : Scalar).intoBigint.toNat = 1 := by
    rw [← Fp.Element.val_toZMod, Fp.Element.toZMod_one, ZMod.val_one]
  have haccepts : Accepts B B B
      (digest (fun _ => .replicate 64 0) a.asRef a.bytes.toList []) (1 : Scalar).toZMod := by
    have hzero : digest (fun _ => .replicate 64 0) a.asRef a.bytes.toList [] = 0 := by
      rw [digest, show leValue (Vector.replicate 64 (0 : U8)).toList = 0 by decide +kernel,
        Nat.cast_zero]
    rw [hzero, Accepts, neg_zero, ZMod.val_zero, zero_nsmul, zero_add, Fp.Element.val_toZMod,
      hone, one_nsmul]
  have hmul : (ProjectivePoint.generator.mul 1).Represents B := by
    have hrep := Represents.mul hB.ofAffine 1
    rw [hone, one_nsmul] at hrep
    exact hrep
  exact signatures_unique hA
    (VerifyingKey.isValid_of_accepts hB.ofAffine hA hmul ha hkey haccepts)
    (VerifyingKey.isValid_of_accepts hB.ofAffine hA hB.ofAffine ha hkey haccepts)

end Accepted

/-! ### Keys from secret keys

The hash function may give any bytes; the scalar is clamped after it. -/

/-- **The scalar of a secret key** is not zero modulo the order. -/
theorem clamped_ne_zero (bytes : Vector U8 32) :
    (leValue (clampInteger bytes).toList : ZMod Curve25519FrParam.p) ≠ 0 := by
  obtain ⟨m, hm, hvalue⟩ := leValue_clampInteger bytes
  rw [hvalue, ne_eq, ZMod.natCast_eq_zero_iff, p_Fr]
  intro hdvd
  have hodd : l.Coprime 8 := by decide +kernel
  have hfactor : 2 ^ 254 + 8 * m = 8 * (2 ^ 251 + m) := by ring
  have hle := Nat.le_of_dvd (by positivity) (hodd.dvd_of_dvd_mul_left (hfactor ▸ hdvd))
  have hbound : 2 ^ 252 < l := by decide +kernel
  omega

/-- The verifying key of a secret key is a multiple of the generator, of the same order. -/
theorem SigningKey.exists_key (sha512 : Bytes → Vector U8 64) (secretKey : SecretKey) {B : Point}
    (hB : Curve25519Config.GENERATOR.Represents B) :
    ∃ key, fromBytes sha512 secretKey = some key ∧
      key.verifyingKey.point.Represents (key.signingKey.scalar.toZMod.val • B) ∧
      addOrderOf (key.signingKey.scalar.toZMod.val • B) = Curve25519FrParam.p := by
  have hlength : 64 ≤ (sha512 secretKey.toList).toList.length := Vector.length_toList.ge
  obtain ⟨expanded, half, hexpanded, -, -, hscalar⟩ :=
    ExpandedSecretKey.exists_fromBytes hlength
  refine ⟨⟨expanded, _, rfl⟩, ?_, ?_, ?_⟩
  · rw [fromBytes, ExpandedSecretKey.ofSecretKey, hexpanded]
    rfl
  · rw [Fp.Element.val_toZMod]
    exact Represents.mul hB.ofAffine _
  · have hne := hscalar ▸ clamped_ne_zero half
    refine addOrderOf_eq_prime ?_ fun hzero => hne ?_
    · have hp : Curve25519FrParam.p • B = 0 := addOrderOf_eq_p hB ▸ addOrderOf_nsmul_eq_zero B
      rw [nsmul_left_comm, hp, nsmul_zero]
    · rw [← zero_nsmul B, nsmul_eq_nsmul_iff_natCast (addOrderOf_eq_p hB),
        ZMod.natCast_zmod_val] at hzero
      exact hzero.trans Nat.cast_zero

/-- **A commitment that is used twice.** For every hash function and every secret key, the verifying
key has the order of the scalars. Let it accept two signatures, of any two messages, which have the
same first half, so the same `R`. The difference of the challenges times the secret scalar is then
the difference of the scalars. So the signatures are equal exactly when the challenges are: one
signature of two messages needs two hash values that agree modulo the order, and different
signatures give the secret scalar away, by a division. -/
theorem reused_commitment (sha512 : Bytes → Vector U8 64) (secretKey : SecretKey) :
    ∃ key keyBytes, SigningKey.fromBytes sha512 secretKey = some key ∧
      key.verifyingKey.toBytes = some keyBytes ∧
      (∀ scalar : List Bool,
        (key.verifyingKey.point.mulBigint Curve25519Config scalar).isZero = true ↔
          Curve25519FrParam.p ∣ ofBitsBe scalar) ∧
      ∀ (m m' : Bytes) (σ τ : Signature) (b c : Vector U8 64), σ.toBytes = some b →
        τ.toBytes = some c → key.isValidSignature sha512 m σ = some true →
        key.isValidSignature sha512 m' τ = some true → b.toList.take 32 = c.toList.take 32 →
        ∀ k k', k = digest sha512 (b.toList.take 32) keyBytes.toList m →
          k' = digest sha512 (c.toList.take 32) keyBytes.toList m' →
          (b = c ↔ k = k') ∧
            (k ≠ k' → key.signingKey.scalar.toZMod = (σ.s.toZMod - τ.s.toZMod) / (k - k')) := by
  obtain ⟨B, hB⟩ := exists_generator
  have horder := addOrderOf_eq_p hB
  obtain ⟨key, hkey, hA, hn⟩ := SigningKey.exists_key sha512 secretKey hB
  obtain ⟨a, -, hbytes⟩ := VerifyingKey.exists_toBytes hA
  refine ⟨key, a.bytes, hkey, hbytes, fun scalar => ?_, ?_⟩
  · rw [← hn, addOrderOf_dvd_iff_nsmul_eq_zero]
    exact (hA.mulProjective scalar).isZero_iff
  rintro m m' σ τ b c hb hc hσ hτ heq k k' rfl rfl
  obtain ⟨R, r, b, _, hr, hb', htake, hs, hbytes', haccepts⟩ :=
    VerifyingKey.accepts_of_isValid hB.ofAffine hA hσ
  obtain ⟨R', r', c, _, hr', hc', htake', hs', hbytes'', haccepts'⟩ :=
    VerifyingKey.accepts_of_isValid hB.ofAffine hA hτ
  obtain rfl := Option.some_inj.mp (hbytes.symm.trans hbytes')
  obtain rfl := Option.some_inj.mp (hbytes.symm.trans hbytes'')
  obtain rfl := Option.some_inj.mp (hb.symm.trans hb')
  obtain rfl := Option.some_inj.mp (hc.symm.trans hc')
  obtain rfl := eq_of_compressed hr hr' (by rw [← htake, ← htake', heq])
  have hfork := haccepts.fork horder haccepts'
  refine ⟨⟨fun hbc => ?_, fun hk => ?_⟩, fun hne => ?_⟩
  · subst hbc
    have hscalar : σ.s = τ.s := Fp.Element.intoBigint_injective (by
      rw [← Uint.leValue_intoBytesLe, ← Uint.leValue_intoBytesLe, ← hs, ← hs'])
    rw [hscalar] at haccepts
    exact haccepts.challenge_unique hn haccepts'
  · rw [hk] at haccepts
    have hscalar := haccepts.response_unique horder haccepts'
    exact eq_of_halves heq (by rw [hs, hs', Fp.Element.toZMod_injective hscalar])
  · rw [← hfork, mul_div_cancel_left₀ _ (sub_ne_zero.mpr hne)]

end Eddsa

end ContractsStylus
