import ContractsStylus.Crypto.FieldInstances
import ContractsStylus.Crypto.Pedersen
import ContractsStylus.Curve.Subgroup
import ContractsStylus.Library.CubicRoots
import ContractsStylus.Library.GroupOrders

/-!
# Short Weierstrass curves by name

The curve secp256k1, and the number of points of that and of the Starknet curve. There are as many
as the modulus of the scalar field says, so the cofactor is one and the elements of the scalar field
number the points. The check for the subgroup, which is skipped with that cofactor, would accept
every point.

## From the order of one point

A generator whose order is a large prime accounts for that many points. No coordinate has more than
two, which bounds the number by less than three times the order; so it is the order or twice it. It
is not twice, because a point of order two would be a root of the cubic. That the cubic has no root
is decided by computation, with a criterion from the library.

The multiples of the generators are computed by the kernel on the formulas of the source, over the
integers modulo the modulus.

## Main definitions

* `Sw.Affine.mul`, `Sw.Projective.mulAssign` — multiplication by elements of the scalar field
* `Secp256k1Config` — the coefficients of the curve
* `Secp256k1.GENERATOR`, `Starknet.GENERATOR` — the generators
* `Secp256k1.curveConfig`, `Starknet.curveConfig` — the cofactors
* `Sw.ScalarsNumberPoints` — what the number of points means for scalars

## Main results

* `Sw.natCard_point` — the number of points
* `prime_weierstrass` — the moduli are prime
* `scalars_number_points` — the two curves
-/

namespace ContractsStylus

/-! ### The number of points

The number of points is a multiple of the order of each of them. Opposite points share a coordinate
and no others do, so there are at most twice as many points as elements of the field, and one
more. -/

namespace Sw

section Count

variable {F : Type} [Field F] {P : SWCurveConfig F} {A B : P.Point}

theorem eq_or_eq_neg_of_xCoordinate [DecidableEq F]
    (h : Pedersen.xCoordinate A = Pedersen.xCoordinate B) : A = B ∨ A = -B := by
  cases hB : Pedersen.xCoordinate B with
  | none =>
    rw [Pedersen.xCoordinate_eq_none.mp (h.trans hB), Pedersen.xCoordinate_eq_none.mp hB]
    exact Or.inl rfl
  | some x => exact Pedersen.eq_or_eq_neg (h.trans hB) hB

/-- A point of order two would have a root as its coordinate. -/
theorem eq_zero_of_two_nsmul [DecidableEq F] (hP : P.Elliptic)
    (hroot : ∀ r : F, r ^ 3 + P.COEFF_A * r + P.COEFF_B ≠ 0) (h : 2 • A = 0) : A = 0 := by
  rw [two_nsmul, add_eq_zero_iff_eq_neg] at h
  cases A with
  | zero => rfl
  | some x y hxy =>
    rw [WeierstrassCurve.Affine.Point.neg_some] at h
    obtain ⟨-, hy⟩ := WeierstrassCurve.Affine.Point.some.inj h
    rw [P.negY_eq] at hy
    have hzero : 2 * y = 0 := by linear_combination hy
    have heq := hP.nonsingular_iff.mp hxy
    rw [(mul_eq_zero.mp hzero).resolve_left hP.two_ne_zero] at heq
    exact absurd (by linear_combination -heq) (hroot x)

variable [Finite F]

theorem finite_point [DecidableEq F] : Finite P.Point :=
  finite_of_eq_or_eq_neg fun _ _ => eq_or_eq_neg_of_xCoordinate

/-- **The number of points** is the order of one of them, when that is odd and not too small, and
there are no points of order two. -/
theorem natCard_point [DecidableEq F] (hP : P.Elliptic)
    (hroot : ∀ r : F, r ^ 3 + P.COEFF_A * r + P.COEFF_B ≠ 0) {l : ℕ} (hodd : Odd l)
    (hB : addOrderOf B = l) (hlt : 2 * (Nat.card F + 1) < 3 * l) : Nat.card P.Point = l := by
  have := finite_point (P := P)
  have hle : Nat.card P.Point ≤ 2 * Nat.card (Option F) :=
    natCard_le_of_eq_or_eq_neg fun _ _ => eq_or_eq_neg_of_xCoordinate
  rw [Finite.card_option] at hle
  have hcard := natCard_eq_two_pow_mul (T := (0 : P.Point)) (k := 0) hodd hB
    (by rw [addOrderOf_zero, pow_zero]) ?_ ?_
  · rwa [pow_zero, one_mul] at hcard
  · intro A hA
    rw [AddSubgroup.zmultiples_zero_eq_bot, AddSubgroup.mem_bot] at hA ⊢
    exact eq_zero_of_two_nsmul hP hroot hA
  · rw [pow_zero, one_mul]
    exact hle.trans_lt hlt

end Count

/-! ### Scalars

What is concluded about a curve with a generator of known order, for any curve; the named curves are
instances. -/

variable {F : Type} [Field F] [DecidableEq F] (P : SWCurveConfig F)
variable {N : ℕ} {R : FpParams N}

/-- `Mul<ScalarField>`. -/
def Affine.mul (self : Affine F) (other : Fp.Element R) : Projective F :=
  P.mulAffine self other.intoBigint.bitBeIter

/-- `MulAssign<ScalarField>`. -/
def Projective.mulAssign (self : Projective F) (other : Fp.Element R) : Projective F :=
  P.mulProjective self other.intoBigint.bitBeIter

/-- **The elements of the scalar field number the points.** There are as many points as the cofactor
and the modulus say. The multiplication that checks for the subgroup accepts all of them, and each
is the multiple of the generator by one element of the scalar field. Sums and products of scalars
are those of the multiplications. -/
structure ScalarsNumberPoints (GENERATOR : Affine F) (c : CurveConfig R) : Prop where
  natCard : Nat.card P.Point = c.cofactor * R.p
  isZero : ∀ a : Affine F, a.isOnCurve P = true →
    (P.mulAffine a R.MODULUS.bitBeIter).isZero = true
  existsUnique : ∀ a : Affine F, a.isOnCurve P = true →
    ∃! k : Fp.Element R, (GENERATOR.mul P k).eq (.ofAffine a) = true
  add : ∀ j k : Fp.Element R,
    (GENERATOR.mul P (j + k)).eq ((GENERATOR.mul P j).addAssign P (GENERATOR.mul P k)) = true
  mul : ∀ j k : Fp.Element R,
    (GENERATOR.mul P (j * k)).eq ((GENERATOR.mul P k).mulAssign P j) = true

variable {P} {A B : P.Point} {a GENERATOR : Affine F} {p : Projective F} {c : CurveConfig R}

theorem Affine.Represents.mul (hP : P.Elliptic) (ha : a.Represents A) (k : Fp.Element R) :
    (a.mul P k).Represents (k.intoBigint.toNat • A) := by
  have hmul := (law hP).doubleAndAddAffine ha k.intoBigint.bitBeIter
  rwa [Uint.ofBitsBe_bitBeIter] at hmul

theorem Projective.Represents.mulAssign (hP : P.Elliptic) (hp : p.Represents A)
    (k : Fp.Element R) : (p.mulAssign P k).Represents (k.intoBigint.toNat • A) := by
  have hmul := (law hP).mulBitsBe hp k.intoBigint.bitBeIter
  rwa [Uint.ofBitsBe_bitBeIter] at hmul

/-- With as many points as the order of the generator says, scalars number them. -/
theorem scalarsNumberPoints [Finite F] (hP : P.Elliptic) (hc : c.cofactor = 1)
    (hG : GENERATOR.Represents B) (hB : addOrderOf B = R.p) (hcard : Nat.card P.Point = R.p) :
    ScalarsNumberPoints P GENERATOR c := by
  have := finite_point (P := P)
  have hzero : ∀ A : P.Point, R.p • A = 0 := fun A => by
    rw [← hcard]
    exact card_nsmul_eq_zero'
  refine ⟨by rw [hcard, hc, one_mul], fun a ha => ?_, fun a ha => ?_, fun j k => ?_, fun j k => ?_⟩
  · obtain ⟨A, hA⟩ := (Affine.isOnCurve_iff hP).mp ha
    have hrep := (law hP).doubleAndAddAffine hA R.MODULUS.bitBeIter
    rw [Uint.ofBitsBe_bitBeIter] at hrep
    exact hrep.isZero_iff.mpr (hzero A)
  · obtain ⟨A, hA⟩ := (Affine.isOnCurve_iff hP).mp ha
    have heq : ∀ k : Fp.Element R, (GENERATOR.mul P k).eq (.ofAffine a) = true ↔
        k.intoBigint.toNat • B = A := fun k => (hG.mul hP k).eq_iff hA.ofAffine
    have hmem : A ∈ AddSubgroup.zmultiples B :=
      mem_zmultiples_of_nsmul_eq_zero hB (hcard.trans (one_mul _).symm) R.p_pos
        (Nat.coprime_one_left _) (hzero A)
    exact (existsUnique_congr heq).mpr (existsUnique_scalar hB hmem)
  · refine ((hG.mul hP _).eq_iff ((hG.mul hP j).addAssign hP (hG.mul hP k))).mpr ?_
    exact (scalarHom (hzero B)).map_add j k
  · refine ((hG.mul hP _).eq_iff ((hG.mul hP k).mulAssign hP j)).mpr ?_
    rw [← mul_nsmul']
    refine nsmul_eq_of_natCast_eq (hzero B) ?_
    rw [Nat.cast_mul]
    exact Fp.Element.toZMod_mul j k

/-! ### Computation over an isomorphic field

The kernel computes with natural numbers and remainders fast, and with limbs in Montgomery form
slowly. -/

section Map

variable {G : Type} [Field G] [DecidableEq G] (φ : F ≃+* G)

/-- Multiples of a point are computed over any field that is isomorphic. -/
theorem nsmul_eq_zero_iff (hP : P.Elliptic) (ha : a.Represents A) {w k : ℕ} (hk : k < 2 ^ w) :
    k • A = 0 ↔ (swDoubleAndAddAffine (P.map φ) (a.map φ) (bitsBe w k)).isZero = true := by
  have hmul := (law hP).doubleAndAddAffine ha (bitsBe w k)
  rw [ofBitsBe_bitsBe, Nat.mod_eq_of_lt hk] at hmul
  rw [← hmul.isZero_iff, ← Projective.isZero_map φ]
  exact iff_of_eq (congrArg (fun p => p.isZero = true)
    (Projective.map_doubleAndAddAffine φ a (bitsBe w k)))

end Map

/-- What is left to compute, with integers modulo the modulus of the base field. -/
theorem exists_generator_of_map {q w : ℕ} [Fact q.Prime] (φ : F ≃+* ZMod q) (hP : P.Elliptic)
    (hR : R.p.Prime) (hG : GENERATOR.isOnCurve P = true) (hinf : GENERATOR.infinity = false)
    (hw : R.p < 2 ^ w)
    (hzero : (swDoubleAndAddAffine (P.map φ) (GENERATOR.map φ) (bitsBe w R.p)).isZero = true)
    (hroot : ∀ r : ZMod q, r ^ 3 + (P.map φ).COEFF_A * r + (P.map φ).COEFF_B ≠ 0)
    (hlt : 2 * (q + 1) < 3 * R.p) :
    ∃ B : P.Point, GENERATOR.Represents B ∧ addOrderOf B = R.p ∧ Nat.card P.Point = R.p := by
  have : Finite F := Finite.of_equiv _ φ.symm.toEquiv
  have : Fact R.p.Prime := ⟨hR⟩
  obtain ⟨B, hB⟩ := (Affine.isOnCurve_iff hP).mp hG
  have hne : B ≠ 0 := by
    rintro rfl
    exact Bool.false_ne_true (hinf.symm.trans hB)
  have horder : addOrderOf B = R.p :=
    addOrderOf_eq_prime ((nsmul_eq_zero_iff φ hP hB hw).mpr hzero) hne
  have hroot' : ∀ r : F, r ^ 3 + P.COEFF_A * r + P.COEFF_B ≠ 0 := by
    intro r hr
    refine hroot (φ r) ?_
    have hmap := congrArg φ hr
    rwa [map_add, map_add, map_mul, map_pow, map_zero] at hmap
  refine ⟨B, hB, horder, natCard_point hP hroot' (Nat.odd_iff.mpr R.odd) horder ?_⟩
  rwa [Nat.card_congr φ.toEquiv, Nat.card_zmod]

end Sw

/-! ### secp256k1 -/

/-- Base field parameters of secp256k1. -/
def Secp256k1FqParam : FpParams 4 :=
  .ofNum 4 115792089237316195423570985008687907853269984665640564039457584007908834671663
    (by norm_num) (by norm_num) (by norm_num)

/-- Scalar field parameters of secp256k1. -/
def Secp256k1FrParam : FpParams 4 :=
  .ofNum 4 115792089237316195423570985008687907852837564279074904382605163141518161494337
    (by norm_num) (by norm_num) (by norm_num)

namespace Secp256k1

abbrev Fq := Fp.Element Secp256k1FqParam

abbrev Fr := Fp.Element Secp256k1FrParam

/-- The modulus of the base field. -/
def q : ℕ := 115792089237316195423570985008687907853269984665640564039457584007908834671663

/-- The modulus of the scalar field. -/
def l : ℕ := 115792089237316195423570985008687907852837564279074904382605163141518161494337

theorem p_Fq : Secp256k1FqParam.p = q := FpParams.p_ofNum ..

theorem p_Fr : Secp256k1FrParam.p = l := FpParams.p_ofNum ..

end Secp256k1

/-- The primes that the certificates of the moduli need, and the moduli. -/
def weierstrassCertificate : Certificate where
  steps :=
    [⟨3, 2, [(2, 1)]⟩, ⟨7, 3, [(2, 1), (3, 1)]⟩, ⟨5, 2, [(2, 2)]⟩,
      ⟨13441, 11, [(2, 7), (3, 1), (5, 1), (7, 1)]⟩, ⟨29, 2, [(2, 2), (7, 1)]⟩,
      ⟨31, 3, [(2, 1), (3, 1), (5, 1)]⟩, ⟨11, 2, [(2, 1), (5, 1)]⟩, ⟨13, 2, [(2, 2), (3, 1)]⟩,
      ⟨7723, 3, [(2, 1), (3, 3), (11, 1), (13, 1)]⟩, ⟨17, 3, [(2, 4)]⟩,
      ⟨443, 2, [(2, 1), (13, 1), (17, 1)]⟩, ⟨887, 5, [(2, 1), (443, 1)]⟩,
      ⟨5323, 5, [(2, 1), (3, 1), (887, 1)]⟩, ⟨131, 2, [(2, 1), (5, 1), (13, 1)]⟩,
      ⟨2621, 2, [(2, 2), (5, 1), (131, 1)]⟩, ⟨24809, 6, [(2, 3), (7, 1), (443, 1)]⟩,
      ⟨97, 5, [(2, 5), (3, 1)]⟩, ⟨971, 6, [(2, 1), (5, 1), (97, 1)]⟩, ⟨1373, 2, [(2, 2), (7, 3)]⟩,
      ⟨13331831, 13, [(2, 1), (5, 1), (971, 1), (1373, 1)]⟩,
      ⟨173378833005251801, 6, [(2, 3), (5, 2), (2621, 1), (24809, 1), (13331831, 1)]⟩,
      ⟨22149492674086928081353, 5, [(2, 3), (3, 1), (5323, 1), (173378833005251801, 1)]⟩,
      ⟨132896956044521568488119, 6, [(2, 1), (3, 1), (22149492674086928081353, 1)]⟩,
      ⟨271, 6, [(2, 1), (3, 3), (5, 1)]⟩, ⟨1627, 3, [(2, 1), (3, 1), (271, 1)]⟩,
      ⟨41, 6, [(2, 3), (5, 1)]⟩, ⟨83, 2, [(2, 1), (41, 1)]⟩, ⟨2657, 3, [(2, 5), (83, 1)]⟩,
      ⟨67, 2, [(2, 1), (3, 1), (11, 1)]⟩, ⟨4423, 3, [(2, 1), (3, 1), (11, 1), (67, 1)]⟩,
      ⟨103, 5, [(2, 1), (3, 1), (17, 1)]⟩, ⟨41201, 3, [(2, 4), (5, 2), (103, 1)]⟩,
      ⟨101, 2, [(2, 2), (5, 2)]⟩, ⟨239, 7, [(2, 1), (7, 1), (17, 1)]⟩,
      ⟨96557, 2, [(2, 2), (101, 1), (239, 1)]⟩, ⟨19, 2, [(2, 1), (3, 2)]⟩,
      ⟨419, 2, [(2, 1), (11, 1), (19, 1)]⟩, ⟨20113, 10, [(2, 4), (3, 1), (419, 1)]⟩,
      ⟨1206781, 10, [(2, 2), (3, 1), (5, 1), (20113, 1)]⟩,
      ⟨7240687, 3, [(2, 1), (3, 1), (1206781, 1)]⟩, ⟨53, 2, [(2, 2), (13, 1)]⟩,
      ⟨107590001, 3, [(2, 4), (5, 4), (7, 1), (29, 1), (53, 1)]⟩,
      ⟨255515944373312847190720520512484175977, 3, [(2, 3), (7, 2), (11, 1), (1627, 1), (2657, 1),
        (4423, 1), (41201, 1), (96557, 1), (7240687, 1), (107590001, 1)]⟩,
      ⟨205115282021455665897114700593932402728804164701536103180137503955397371, 10, [(2, 1),
        (3, 1), (5, 1), (29, 2), (31, 1), (7723, 1), (132896956044521568488119, 1),
        (255515944373312847190720520512484175977, 1)]⟩,
      ⟨115792089237316195423570985008687907853269984665640564039457584007908834671663, 3, [(2, 1),
        (3, 1), (7, 1), (13441, 1),
        (205115282021455665897114700593932402728804164701536103180137503955397371, 1)]⟩,
      ⟨37, 2, [(2, 2), (3, 2)]⟩, ⟨149, 2, [(2, 2), (37, 1)]⟩,
      ⟨631, 3, [(2, 1), (3, 2), (5, 1), (7, 1)]⟩, ⟨23, 5, [(2, 1), (11, 1)]⟩,
      ⟨16699, 3, [(2, 1), (3, 1), (11, 2), (23, 1)]⟩, ⟨2861, 2, [(2, 2), (5, 1), (11, 1), (13, 1)]⟩,
      ⟨85831, 3, [(2, 1), (3, 1), (5, 1), (2861, 1)]⟩, ⟨2011, 3, [(2, 1), (3, 1), (5, 1), (67, 1)]⟩,
      ⟨4681609, 23, [(2, 3), (3, 1), (97, 1), (2011, 1)]⟩,
      ⟨107361793816595537, 3, [(2, 4), (16699, 1), (85831, 1), (4681609, 1)]⟩,
      ⟨59, 2, [(2, 1), (29, 1)]⟩, ⟨4051, 10, [(2, 1), (3, 4), (5, 2)]⟩, ⟨113, 3, [(2, 4), (7, 1)]⟩,
      ⟨120233, 3, [(2, 3), (7, 1), (19, 1), (113, 1)]⟩, ⟨199, 3, [(2, 1), (3, 2), (11, 1)]⟩,
      ⟨797, 2, [(2, 2), (199, 1)]⟩, ⟨9349, 2, [(2, 2), (3, 1), (19, 1), (41, 1)]⟩,
      ⟨44706919, 6, [(2, 1), (3, 1), (797, 1), (9349, 1)]⟩,
      ⟨174723607534414371449, 3, [(2, 3), (17, 1), (59, 1), (4051, 1), (120233, 1), (44706919, 1)]⟩,
      ⟨109, 6, [(2, 2), (3, 3)]⟩, ⟨73, 5, [(2, 3), (3, 2)]⟩, ⟨293, 2, [(2, 2), (73, 1)]⟩,
      ⟨2731, 3, [(2, 1), (3, 1), (5, 1), (7, 1), (13, 1)]⟩,
      ⟨305873, 3, [(2, 4), (7, 1), (2731, 1)]⟩, ⟨1409, 3, [(2, 7), (11, 1)]⟩,
      ⟨28181, 2, [(2, 2), (5, 1), (1409, 1)]⟩,
      ⟨545358713, 5, [(2, 3), (41, 1), (59, 1), (28181, 1)]⟩, ⟨461, 2, [(2, 2), (5, 1), (23, 1)]⟩,
      ⟨1871, 14, [(2, 1), (5, 1), (11, 1), (17, 1)]⟩,
      ⟨1627771, 3, [(2, 1), (3, 1), (5, 1), (29, 1), (1871, 1)]⟩,
      ⟨297159362677, 2, [(2, 2), (3, 2), (11, 1), (461, 1), (1627771, 1)]⟩,
      ⟨29047611873442575647497758179, 2, [(2, 1), (293, 1), (305873, 1), (545358713, 1),
        (297159362677, 1)]⟩,
      ⟨341948486974166000522343609283189, 2, [(2, 2), (3, 3), (109, 1),
        (29047611873442575647497758179, 1)]⟩,
      ⟨115792089237316195423570985008687907852837564279074904382605163141518161494337, 7, [(2, 6),
        (3, 1), (149, 1), (631, 1), (107361793816595537, 1), (174723607534414371449, 1),
        (341948486974166000522343609283189, 1)]⟩, ⟨49369, 13, [(2, 3), (3, 1), (11, 2), (17, 1)]⟩,
      ⟨1481071, 3, [(2, 1), (3, 1), (5, 1), (49369, 1)]⟩, ⟨43, 3, [(2, 1), (3, 1), (7, 1)]⟩,
      ⟨231169, 17, [(2, 8), (3, 1), (7, 1), (43, 1)]⟩,
      ⟨74436419, 7, [(2, 1), (7, 1), (23, 1), (231169, 1)]⟩, ⟨523, 2, [(2, 1), (3, 2), (29, 1)]⟩,
      ⟨131797, 5, [(2, 2), (3, 2), (7, 1), (523, 1)]⟩, ⟨31393, 5, [(2, 5), (3, 2), (109, 1)]⟩,
      ⟨10108547, 2, [(2, 1), (7, 1), (23, 1), (31393, 1)]⟩,
      ⟨571, 3, [(2, 1), (3, 1), (5, 1), (19, 1)]⟩, ⟨5711, 19, [(2, 1), (5, 1), (571, 1)]⟩,
      ⟨11423, 5, [(2, 1), (5711, 1)]⟩, ⟨22206313, 5, [(2, 3), (3, 5), (11423, 1)]⟩,
      ⟨1789, 6, [(2, 2), (3, 1), (149, 1)]⟩,
      ⟨74837449, 13, [(2, 3), (3, 2), (7, 1), (83, 1), (1789, 1)]⟩, ⟨47, 5, [(2, 1), (23, 1)]⟩,
      ⟨463, 3, [(2, 1), (3, 1), (7, 1), (11, 1)]⟩,
      ⟨565787, 2, [(2, 1), (13, 1), (47, 1), (463, 1)]⟩,
      ⟨28547348873, 3, [(2, 3), (7, 1), (17, 1), (53, 1), (565787, 1)]⟩,
      ⟨439, 15, [(2, 1), (3, 1), (73, 1)]⟩, ⟨4391, 14, [(2, 1), (5, 1), (439, 1)]⟩,
      ⟨61, 2, [(2, 2), (3, 1), (5, 1)]⟩, ⟨2887, 5, [(2, 1), (3, 1), (13, 1), (37, 1)]⟩,
      ⟨11753132899, 3, [(2, 1), (3, 1), (13, 1), (19, 1), (41, 1), (67, 1), (2887, 1)]⟩,
      ⟨12904939923103, 3, [(2, 1), (3, 2), (61, 1), (11753132899, 1)]⟩,
      ⟨1803099112058626586861, 2, [(2, 2), (5, 1), (37, 1), (43, 1), (4391, 1),
        (12904939923103, 1)]⟩,
      ⟨5470365079085120887157193270902448565659295524958143968059153, 15, [(2, 4), (3, 1),
        (131797, 1), (10108547, 1), (22206313, 1), (74837449, 1), (28547348873, 1),
        (1803099112058626586861, 1)]⟩,
      ⟨3618502788666131213697322783095070105526743751716087489154079457884512865583, 3, [(2, 1),
        (3, 1), (1481071, 1), (74436419, 1),
        (5470365079085120887157193270902448565659295524958143968059153, 1)]⟩]
  checked := by decide +kernel

/-- **The moduli are prime**, those of the fields of secp256k1 and that of the scalar field of
Starknet. -/
theorem prime_weierstrass : ∀ p ∈ [Secp256k1.q, Secp256k1.l, Starknet.l], p.Prime := by
  have hsteps : ∀ p ∈ [Secp256k1.q, Secp256k1.l, Starknet.l],
      p ∈ weierstrassCertificate.primes := by decide +kernel
  exact fun p hp => weierstrassCertificate.prime (hsteps p hp)

namespace Secp256k1

instance instFactPrimeQ : Fact q.Prime := ⟨prime_weierstrass q (by simp)⟩

instance instFactPrime : Fact Secp256k1FqParam.p.Prime := ⟨p_Fq ▸ instFactPrimeQ.out⟩

end Secp256k1

/-- secp256k1's curve details. -/
def Secp256k1Config : SWCurveConfig Secp256k1.Fq where
  COEFF_A := 0
  COEFF_B := .fromNum 7
  extensionDegree := 1

namespace Secp256k1

def GENERATOR : Sw.Affine Fq := .newUnchecked
  (.fromNum 55066263022277343669578718895168534326250603453777594175500187360389116729240)
  (.fromNum 32670510020758816978083085130507043184471273380659243275938904335757337482424)

def curveConfig : CurveConfig Secp256k1FrParam where
  COFACTOR := [1, 0]
  COFACTOR_INV := 1

def equiv : Fq ≃+* ZMod q := Fp.Element.equivOfEq p_Fq

/-- The curve over the integers modulo the modulus. -/
def config : SWCurveConfig (ZMod q) := ⟨0, (7 : ℕ), 1⟩

/-- The generator over the integers modulo the modulus. -/
def generator : Sw.Affine (ZMod q) := .newUnchecked
  (55066263022277343669578718895168534326250603453777594175500187360389116729240 : ℕ)
  (32670510020758816978083085130507043184471273380659243275938904335757337482424 : ℕ)

theorem map_config : Secp256k1Config.map equiv = config := by
  rw [SWCurveConfig.map, Secp256k1Config, config, map_zero]
  rw [show equiv (.fromNum 7) = (7 : ℕ) from Fp.Element.equivOfEq_fromNum p_Fq (by norm_num)]

theorem map_generator : GENERATOR.map equiv = generator := by
  have hnum : ∀ n < 2 ^ 256, equiv (.fromNum n) = n := fun n => Fp.Element.equivOfEq_fromNum p_Fq
  rw [GENERATOR, generator, Sw.Affine.newUnchecked, Sw.Affine.map, hnum _ (by norm_num),
    hnum _ (by norm_num), Sw.Affine.newUnchecked]

/-- The curve is not singular. -/
theorem elliptic : Secp256k1Config.Elliptic :=
  .of_map equiv (by rw [map_config]; exact ⟨by decide +kernel, by decide +kernel⟩)

/-- The points of the curve. -/
abbrev Point := Secp256k1Config.Point

/-- The inverse of `X ^ q - X` modulo the cubic polynomial of the curve. -/
def inverse : CubicRem (ZMod q) :=
  ⟨0, 0, (46758632835564736012269203954919337884311706168562511263687580192619680188360 : ℕ)⟩

/-- The cubic polynomial of the curve has no roots. -/
theorem no_root (r : ZMod q) : r ^ 3 + config.COEFF_A * r + config.COEFF_B ≠ 0 :=
  CubicRem.no_root (w := 256) (ZMod.card q) (by decide +kernel) inverse
    (by decide +kernel) r

/-- The generator has the order that it should have, and so has the curve. -/
theorem exists_generator : ∃ B : Point,
    GENERATOR.Represents B ∧ addOrderOf B = Secp256k1FrParam.p ∧
      Nat.card Point = Secp256k1FrParam.p := by
  refine Sw.exists_generator_of_map (w := 256) equiv elliptic ?_ ?_ rfl ?_ ?_ ?_ ?_
  · rw [p_Fr]
    exact prime_weierstrass _ (by simp)
  · rw [← Sw.Affine.isOnCurve_map equiv, map_config, map_generator]
    decide +kernel
  · rw [p_Fr]
    decide +kernel
  · rw [p_Fr, map_config, map_generator]
    decide +kernel
  · rw [map_config]
    exact no_root
  · rw [p_Fr]
    decide +kernel

end Secp256k1

/-! ### Starknet -/

namespace Starknet

abbrev Fr := Fp.Element StarknetFrParam

def GENERATOR : Sw.Affine Fq := .newUnchecked
  (.fromNum 874739451078007766457464989774322083649278607533249481151382481072868806602)
  (.fromNum 152666792071518830868575557812948353041420400780739481342941381225525861407)

def curveConfig : CurveConfig StarknetFrParam where
  COFACTOR := [1]
  COFACTOR_INV := 1

/-- The curve over the integers modulo the modulus. -/
def config : SWCurveConfig (ZMod q) := ⟨(1 : ℕ), coeffB, 1⟩

/-- The generator over the integers modulo the modulus. -/
def generator : Sw.Affine (ZMod q) := .newUnchecked
  (874739451078007766457464989774322083649278607533249481151382481072868806602 : ℕ)
  (152666792071518830868575557812948353041420400780739481342941381225525861407 : ℕ)

theorem map_config : StarknetCurveConfig.map equiv = config := by
  rw [SWCurveConfig.map, config, equiv_coeffA, equiv_coeffB]
  rfl

theorem map_generator : GENERATOR.map equiv = generator := by
  have hnum : ∀ n < 2 ^ 256, equiv (.fromNum n) = n := fun n => Fp.Element.equivOfEq_fromNum p_Fq
  rw [GENERATOR, generator, Sw.Affine.newUnchecked, Sw.Affine.map, hnum _ (by norm_num),
    hnum _ (by norm_num), Sw.Affine.newUnchecked]

/-- The inverse of `X ^ q - X` modulo the cubic polynomial of the curve. -/
def inverse : CubicRem (ZMod q) :=
  ⟨(2043544184193508790506046486867995574328972747364632442021244577644613083411 : ℕ),
    (2935106962080035537842611299988581372091173088494006736581926048054027181133 : ℕ),
    (376400296575036714941695555522612899315471197531070009220369179516623567761 : ℕ)⟩

/-- The cubic polynomial of the curve has no roots. -/
theorem no_root (r : ZMod q) : r ^ 3 + config.COEFF_A * r + config.COEFF_B ≠ 0 :=
  CubicRem.no_root (w := 252) (ZMod.card q) (by decide +kernel) inverse
    (by decide +kernel) r

/-- The generator has the order that it should have, and so has the curve. -/
theorem exists_generator : ∃ B : Point,
    GENERATOR.Represents B ∧ addOrderOf B = StarknetFrParam.p ∧
      Nat.card Point = StarknetFrParam.p := by
  refine Sw.exists_generator_of_map (w := 252) equiv elliptic ?_ ?_ rfl ?_ ?_ ?_ ?_
  · rw [p_Fr]
    exact prime_weierstrass _ (by simp)
  · rw [← Sw.Affine.isOnCurve_map equiv, map_config, map_generator]
    decide +kernel
  · rw [p_Fr]
    decide +kernel
  · rw [p_Fr, map_config, map_generator]
    decide +kernel
  · rw [map_config]
    exact no_root
  · rw [p_Fr]
    decide +kernel

end Starknet

/-! ### The curves -/

/-- **Scalars number the points** of secp256k1 and of the Starknet curve. -/
theorem scalars_number_points :
    Sw.ScalarsNumberPoints Secp256k1Config Secp256k1.GENERATOR Secp256k1.curveConfig ∧
    Sw.ScalarsNumberPoints StarknetCurveConfig Starknet.GENERATOR Starknet.curveConfig := by
  obtain ⟨B, hB, horder, hcard⟩ := Secp256k1.exists_generator
  obtain ⟨B', hB', horder', hcard'⟩ := Starknet.exists_generator
  have := Finite.of_equiv _ Secp256k1.equiv.symm.toEquiv
  have := Finite.of_equiv _ Starknet.equiv.symm.toEquiv
  exact ⟨Sw.scalarsNumberPoints Secp256k1.elliptic rfl hB horder hcard,
    Sw.scalarsNumberPoints Starknet.elliptic rfl hB' horder' hcard'⟩

end ContractsStylus
