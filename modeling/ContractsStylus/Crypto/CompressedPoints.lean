import ContractsStylus.Crypto.EddsaLaws

/-!
# Encodings of points are unique

A point is encoded by its second coordinate and one bit of the first one. The equation of the curve
leaves two candidates for the first coordinate, which are negatives of each other and so differ in
that bit: the modulus is odd. The bit is put where the second coordinate never has one, since the
modulus has a bit to spare.

## One bit is enough

What is proved is that no two points have the same bytes; how bytes are decoded is not needed for
it. The second coordinate is read back from the lower bits since it is reduced, and the sign is the
highest bit. Two points with one second coordinate have first coordinates that are equal or
negatives, by the equation of the curve.

## Main results

* `Fp.Element.isOdd_neg` — an element and its negative differ in parity
* `Eddsa.CompressedPointY.ofAffine_eq` — the bytes of a point
* `Eddsa.CompressedPointY.injOn_ofAffine` — points with equal bytes are equal
-/

namespace ContractsStylus

/-! ### The parity of field elements

An element and its negative add up to the modulus, which is odd. -/

namespace Fp.Element

variable {N : ℕ} {P : FpParams N} {a b : Element P}

theorem intoBigint_injective (h : a.intoBigint.toNat = b.intoBigint.toNat) : a = b :=
  toZMod_injective (by rw [toZMod, toZMod, h])

theorem intoBigint_neg (h : a ≠ 0) : (-a).intoBigint.toNat + a.intoBigint.toNat = P.p := by
  have hne : a.toZMod ≠ 0 := fun hzero => h (toZMod_eq_zero.mp hzero)
  have hlt := a.intoBigint_lt
  have : NeZero P.p := ⟨by omega⟩
  rw [← val_toZMod, toZMod_neg, ZMod.neg_val, if_neg hne, val_toZMod]
  omega

/-- **An element and its negative differ in parity**, unless the element is zero. -/
theorem isOdd_neg (hN : 0 < N) (h : a ≠ 0) :
    (-a).intoBigint.isOdd hN ≠ a.intoBigint.isOdd hN := by
  intro heq
  have hsum := intoBigint_neg h
  have hodd := P.odd
  have hiff : (-a).intoBigint.toNat % 2 = 1 ↔ a.intoBigint.toNat % 2 = 1 := by
    rw [← Uint.isOdd_iff hN, ← Uint.isOdd_iff hN, heq]
  rw [show P.MODULUS.toNat = P.p from rfl] at hodd
  omega

end Fp.Element

namespace Eddsa

open Curve25519 Te

namespace CompressedPointY

/-! ### The bytes of a point

The sign is written by an exclusive or into a bit that is zero, so it can be read back and the rest
too. -/

/-- The bytes of the second coordinate. -/
def yBytes (point : AffinePoint) : Vector U8 32 :=
  ⟨point.y.intoBigint.intoBytesLe.toArray,
    List.size_toArray.trans (Uint.length_intoBytesLe point.y.intoBigint)⟩

/-- The parity of the first coordinate, in the highest bit of a byte. -/
def signByte (isOdd : Bool) : U8 := (BitVec.ofBool isOdd).setWidth 8 <<< 7

theorem ofAffine_eq (hN : 0 < 4) (hi : 31 < 32) (point : AffinePoint) : ofAffine point =
    some ⟨(yBytes point).set 31 ((yBytes point)[31] ^^^
      signByte (point.x.intoBigint.isOdd hN))⟩ :=
  dif_pos (Uint.length_intoBytesLe _)

theorem leValue_yBytes (point : AffinePoint) :
    leValue (yBytes point).toList = point.y.intoBigint.toNat :=
  Uint.leValue_intoBytesLe _

/-- **The second coordinate leaves the highest bit free.** -/
theorem yBytes_lt (hi : 31 < 32) (point : AffinePoint) : (yBytes point)[31].toNat < 128 := by
  have hvalue := leValue_yBytes point
  have hlt := point.y.intoBigint_lt
  rw [p_Fq, q] at hlt
  rw [leValue_eq, Vector.length_toList, positional_succ, List.getD_eq_getElem _ _ (by simp),
    Vector.getElem_toList] at hvalue
  omega

/-- A byte below the sign and the sign are found in the byte that has both. -/
theorem eq_of_xor_signByte {u v : U8} {b c : Bool} (hu : u.toNat < 128) (hv : v.toNat < 128)
    (h : u ^^^ signByte b = v ^^^ signByte c) : u = v ∧ b = c := by
  have hsign : ∀ b, (signByte b).getLsbD 7 = b := by decide
  have htop : ∀ x : U8, x.toNat < 128 → x.getLsbD 7 = false := fun x hx =>
    Nat.testBit_lt_two_pow hx
  have hbit := congrArg (BitVec.getLsbD · 7) h
  simp only [BitVec.getLsbD_xor, hsign, htop u hu, htop v hv, Bool.false_bne] at hbit
  subst hbit
  exact ⟨(BitVec.xor_left_inj _).mp h, rfl⟩

/-- Vectors that agree but for one place, where something else is written. -/
theorem eq_of_set_eq {α : Type} {n i : ℕ} {s t : Vector α n} {x y : α} (hi : i < n)
    (h : s.set i x = t.set i y) : x = y ∧ (s[i] = t[i] → s = t) := by
  refine ⟨by simpa using congrArg (·[i]) h, fun heq => Vector.ext fun j hj => ?_⟩
  by_cases hij : i = j
  · subst hij
    exact heq
  · have hget := congrArg (·[j]) h
    simpa [Vector.getElem_set, hij] using hget

/-- **Equal bytes** are those of equal second coordinates, and of first coordinates with the same
parity. -/
theorem eq_of_ofAffine (hN : 0 < 4) {A B : AffinePoint} (h : ofAffine A = ofAffine B) :
    A.y = B.y ∧ A.x.intoBigint.isOdd hN = B.x.intoBigint.isOdd hN := by
  have hi : 31 < 32 := by norm_num
  rw [ofAffine_eq hN hi, ofAffine_eq hN hi, Option.some_inj, mk.injEq] at h
  obtain ⟨hlast, hrest⟩ := eq_of_set_eq hi h
  obtain ⟨hbyte, hparity⟩ := eq_of_xor_signByte (yBytes_lt hi A) (yBytes_lt hi B) hlast
  refine ⟨Fp.Element.intoBigint_injective ?_, hparity⟩
  rw [← leValue_yBytes, ← leValue_yBytes, hrest hbyte]

/-- **The encoding is injective** on the points of the curve. Every point has an encoding. -/
theorem injOn_ofAffine :
    (∀ point : AffinePoint, (ofAffine point).isSome) ∧
    Set.InjOn ofAffine {point | point.isOnCurve Curve25519Config = true} := by
  refine ⟨fun point => ?_, fun A hA B hB h => ?_⟩
  · obtain ⟨c, hc⟩ := exists_compressed point
    rw [hc]
    rfl
  · have hN : 0 < 4 := by norm_num
    obtain ⟨hy, hparity⟩ := eq_of_ofAffine hN h
    obtain ⟨A, rfl⟩ : ∃ P : Curve25519Config.Point complete, A.Represents P :=
      Affine.isOnCurve_iff.mp hA
    obtain ⟨B, rfl⟩ : ∃ P : Curve25519Config.Point complete, B.Represents P :=
      Affine.isOnCurve_iff.mp hB
    have hequation := A.equation
    rw [show A.y = B.y from hy] at hequation
    refine Affine.ext ?_ hy
    rcases Edwards.eq_or_eq_neg_of_equation hequation B.equation with hx | hx
    · exact hx
    · -- the negative of a coordinate other than zero has another parity
      by_cases hzero : B.x = 0
      · rw [hx, hzero, neg_zero]
      · simp only [hx] at hparity
        exact absurd hparity (Fp.Element.isOdd_neg hN hzero)

end CompressedPointY

end Eddsa

end ContractsStylus
