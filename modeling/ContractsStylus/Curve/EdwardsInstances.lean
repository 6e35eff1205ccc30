import ContractsStylus.Crypto.FieldInstances
import ContractsStylus.Curve.Curve25519
import ContractsStylus.Curve.Subgroup

/-!
# Twisted Edwards curves by name

The curves Jubjub and Baby Jubjub, with their base fields, and the orders of the generators of
these and of Curve25519.

## Orders by computation

The order of a generator is read off its multiples: the one by the order is zero, and the ones by
its quotients by primes are not. These are scalar multiplications of a few hundred steps, and the
kernel does them on the formulas of the source. It does them over `ZMod q` and not over the field
of the source, whose elements are in Montgomery form; `Te.nsmul_eq_zero_iff` carries the outcome
over, since the formulas commute with an isomorphism of fields.

That the moduli are prime comes from certificates, which are checked once, for all of them.

## Main definitions

* `JubjubConfig`, `BabyJubjubConfig` — the coefficients of the curves
* `Curve25519.curveConfig`, `Jubjub.curveConfig`, `BabyJubjub.curveConfig` — their cofactors
* `Te.GeneratorOrder` — what the order of a generator means for scalars

## Main results

* `Te.nsmul_eq_zero_iff` — multiples of a point by computation
* `prime_orders` — the moduli of the scalar fields are prime
* `Te.generatorOrder` — from the order of a generator to its multiples
-/

namespace ContractsStylus

/-! ### Multiples of a generator -/

namespace Te

variable {F G : Type} [Field F] [DecidableEq F] [Field G] [DecidableEq G] {P : TECurveConfig F}
  {hP : P.Complete}

/-- Multiples of a point are computed over any field that is isomorphic. -/
theorem nsmul_eq_zero_iff (φ : F ≃+* G) {a : Affine F} {A : P.Point hP} (ha : a.Represents A)
    {w k : ℕ} (hk : k < 2 ^ w) : k • A = 0 ↔
      ((P.map φ).mulProjective (.ofAffine (a.map φ)) (bitsBe w k)).isZero = true := by
  have hmul := ha.ofAffine.mulProjective (bitsBe w k)
  rw [ofBitsBe_bitsBe, Nat.mod_eq_of_lt hk] at hmul
  rw [← hmul.isZero_iff, ← Projective.isZero_map φ, Projective.map_mulProjective,
    Projective.map_ofAffine]

/-- The order of a generator, from the prime factors of the number that it should be. -/
theorem addOrderOf_generator (φ : F ≃+* G) {B : P.Point hP} (hB : P.GENERATOR.Represents B)
    {w n : ℕ} (hpos : 0 < n) (hn : n < 2 ^ w)
    (hzero : ((P.map φ).mulProjective (.generator (P.map φ)) (bitsBe w n)).isZero = true)
    (hne : ∀ p, p.Prime → p ∣ n →
      ((P.map φ).mulProjective (.generator (P.map φ)) (bitsBe w (n / p))).isZero = false) :
    addOrderOf B = n := by
  refine addOrderOf_eq_of_nsmul_and_div_prime_nsmul hpos
    ((nsmul_eq_zero_iff φ hB hn).mpr hzero) fun p hp hdvd => ?_
  rw [ne_eq, nsmul_eq_zero_iff φ hB ((Nat.div_le_self n p).trans_lt hn)]
  exact ne_true_of_eq_false (hne p hp hdvd)

/-- **What an order of the generator means**: which scalars give the same multiple, and which
multiples are in the subgroup of the scalar field. -/
def GeneratorOrder {N : ℕ} (P : TECurveConfig F) (R : FpParams N) (n : ℕ) : Prop :=
  ∀ scalar : List Bool,
    (∀ scalar' : List Bool,
      (P.mulAffine P.GENERATOR scalar).eq (P.mulAffine P.GENERATOR scalar') = true ↔
        ofBitsBe scalar ≡ ofBitsBe scalar' [MOD n]) ∧
    ∃ a, Affine.ofProjective (P.mulAffine P.GENERATOR scalar) = some a ∧
      (a.isInPrimeOrderSubgroup P R = true ↔ n ∣ R.p * ofBitsBe scalar)

theorem generatorOrder {N : ℕ} (R : FpParams N) {B : P.Point hP} (hB : P.GENERATOR.Represents B)
    {n : ℕ} (hn : addOrderOf B = n) : GeneratorOrder P R n := by
  intro scalar
  have hmul : ∀ s : List Bool, (P.mulAffine P.GENERATOR s).Represents (ofBitsBe s • B) :=
    hB.mulAffine
  refine ⟨fun scalar' => ?_, _, (Projective.represents_iff.mp (hmul scalar)).2, ?_⟩
  · rw [(hmul scalar).eq_iff (hmul scalar'), nsmul_eq_nsmul_iff_modEq, hn]
  · have hrep : (⟨(ofBitsBe scalar • B).x, (ofBitsBe scalar • B).y⟩ : Affine F).Represents
        (ofBitsBe scalar • B) := rfl
    rw [hrep.isInPrimeOrderSubgroup_iff, ← mul_nsmul', ← addOrderOf_dvd_iff_nsmul_eq_zero, hn]

end Te

/-! ### The curves

The constants are those of the source. That a point is on the curve, and that the coefficients make
the addition complete, are computed over the integers modulo the modulus. -/

namespace Curve25519

def curveConfig : CurveConfig Curve25519FrParam where
  COFACTOR := [8]
  COFACTOR_INV :=
    .fromNum 2713877091499598330239944961141122840321418634767465352250731601857045344121

theorem inverse : curveConfig.Inverse :=
  CurveConfig.inverse_of_mod rfl (by norm_num) (by rw [p_Fr]; decide +kernel)

end Curve25519

theorem Jubjub.modulus_lt :
    52435875175126190479447740508185965837690552500527637822603658699938581184513 <
      2 ^ (64 * 4) := by
  norm_num

theorem Jubjub.modulus_odd :
    52435875175126190479447740508185965837690552500527637822603658699938581184513 % 2 = 1 := by
  norm_num

theorem Jubjub.one_lt_modulus :
    1 < 52435875175126190479447740508185965837690552500527637822603658699938581184513 := by
  norm_num

/-- Base field parameters of Jubjub. -/
def JubjubFqParam : FpParams 4 :=
  .ofNum 4 52435875175126190479447740508185965837690552500527637822603658699938581184513
    Jubjub.modulus_lt Jubjub.modulus_odd Jubjub.one_lt_modulus

/-- Scalar field parameters of Jubjub. -/
def JubjubFrParam : FpParams 4 :=
  .ofNum 4 6554484396890773809930967563523245729705921265872317281365359162392183254199
    (by norm_num) (by norm_num) (by norm_num)

theorem BabyJubjub.modulus_lt :
    21888242871839275222246405745257275088548364400416034343698204186575808495617 <
      2 ^ (64 * 4) := by
  norm_num

theorem BabyJubjub.modulus_odd :
    21888242871839275222246405745257275088548364400416034343698204186575808495617 % 2 = 1 := by
  norm_num

theorem BabyJubjub.one_lt_modulus :
    1 < 21888242871839275222246405745257275088548364400416034343698204186575808495617 := by
  norm_num

/-- Base field parameters of Baby Jubjub. -/
def BabyJubjubFqParam : FpParams 4 :=
  .ofNum 4 21888242871839275222246405745257275088548364400416034343698204186575808495617
    BabyJubjub.modulus_lt BabyJubjub.modulus_odd BabyJubjub.one_lt_modulus

/-- Scalar field parameters of Baby Jubjub. -/
def BabyJubjubFrParam : FpParams 4 :=
  .ofNum 4 2736030358979909402780800718157159386076813972158567259200215660948447373041
    (by norm_num) (by norm_num) (by norm_num)

instance instFactPrimeJubjubFq : Fact JubjubFqParam.p.Prime := instFactPrimeBLS12

instance instFactPrimeBabyJubjubFq : Fact BabyJubjubFqParam.p.Prime := instFactPrimeBN256

namespace Jubjub

abbrev Fq := Fp.Element JubjubFqParam

abbrev Fr := Fp.Element JubjubFrParam

/-- The modulus of the base field. -/
def q : ℕ := 52435875175126190479447740508185965837690552500527637822603658699938581184513

/-- The modulus of the scalar field. -/
def l : ℕ := 6554484396890773809930967563523245729705921265872317281365359162392183254199

theorem p_Fq : JubjubFqParam.p = q := FpParams.p_ofNum ..

theorem p_Fr : JubjubFrParam.p = l := FpParams.p_ofNum ..

instance instFactPrimeQ : Fact q.Prime := ⟨p_Fq ▸ instFactPrimeJubjubFq.out⟩

end Jubjub

/-- Jubjub curve details. -/
def JubjubConfig : TECurveConfig Jubjub.Fq where
  COEFF_A := (Fp.Element.fromNum 1).constNeg
  COEFF_D :=
    .fromNum 19257038036680949359750312669786877991949435402254120286184196891950884077233
  GENERATOR := .newUnchecked
    (.fromNum 8076246640662884909881801758704306714034609987455869804520522091855516602923)
    (.fromNum 13262374693698910701929044844600465831413122818447359594527400194675274060458)

namespace Jubjub

def curveConfig : CurveConfig JubjubFrParam where
  COFACTOR := [8]
  COFACTOR_INV :=
    .fromNum 819310549611346726241370945440405716213240158234039660170669895299022906775

theorem inverse : curveConfig.Inverse :=
  CurveConfig.inverse_of_mod rfl (by norm_num) (by rw [p_Fr]; decide +kernel)

def equiv : Fq ≃+* ZMod q := Fp.Element.equivOfEq p_Fq

/-- The curve over the integers modulo the modulus. -/
def config : TECurveConfig (ZMod q) where
  COEFF_A := -(1 : ℕ)
  COEFF_D :=
    (19257038036680949359750312669786877991949435402254120286184196891950884077233 : ℕ)
  GENERATOR := .newUnchecked
    (8076246640662884909881801758704306714034609987455869804520522091855516602923 : ℕ)
    (13262374693698910701929044844600465831413122818447359594527400194675274060458 : ℕ)

theorem map_config : JubjubConfig.map equiv = config := by
  have hnum : ∀ n < 2 ^ 256, equiv (.fromNum n) = n := fun n => Fp.Element.equivOfEq_fromNum p_Fq
  simp only [TECurveConfig.map, JubjubConfig, config, Te.Affine.newUnchecked, Te.Affine.map,
    Fp.Element.constNeg_eq, map_neg]
  rw [hnum _ (by norm_num), hnum _ (by norm_num), hnum _ (by norm_num), hnum _ (by norm_num)]

theorem complete_config : config.Complete where
  two_ne_zero := by decide +kernel
  a_ne_zero := by decide +kernel
  isSquare_a := by
    rw [config, Nat.cast_one]
    exact ZMod.exists_sq_eq_neg_one_iff.mpr (by decide +kernel)
  not_isSquare_d := not_isSquare_of_powMod (by decide +kernel) (by decide +kernel)

/-- The addition of the curve is complete. -/
theorem complete : JubjubConfig.Complete :=
  .of_map equiv (by rw [map_config]; exact complete_config)

abbrev Point := JubjubConfig.Point complete

/-- The generator is on the curve. -/
theorem exists_generator : ∃ B : Point, JubjubConfig.GENERATOR.Represents B := by
  rw [← Te.Affine.isOnCurve_iff, ← Te.Affine.isOnCurve_map equiv, Te.Affine.map_generator,
    map_config]
  decide +kernel

end Jubjub

namespace BabyJubjub

abbrev Fq := Fp.Element BabyJubjubFqParam

abbrev Fr := Fp.Element BabyJubjubFrParam

/-- The modulus of the base field. -/
def q : ℕ := 21888242871839275222246405745257275088548364400416034343698204186575808495617

/-- The modulus of the scalar field. -/
def l : ℕ := 2736030358979909402780800718157159386076813972158567259200215660948447373041

theorem p_Fq : BabyJubjubFqParam.p = q := FpParams.p_ofNum ..

theorem p_Fr : BabyJubjubFrParam.p = l := FpParams.p_ofNum ..

instance instFactPrimeQ : Fact q.Prime := ⟨p_Fq ▸ instFactPrimeBabyJubjubFq.out⟩

end BabyJubjub

/-- Baby Jubjub curve details. -/
def BabyJubjubConfig : TECurveConfig BabyJubjub.Fq where
  COEFF_A := .fromNum 168700
  COEFF_D := .fromNum 168696
  GENERATOR := .newUnchecked
    (.fromNum 995203441582195749578291179787384436505546430278305826713579947235728471134)
    (.fromNum 5472060717959818805561601436314318772137091100104008585924551046643952123905)

namespace BabyJubjub

def curveConfig : CurveConfig BabyJubjubFrParam where
  COFACTOR := [8]
  COFACTOR_INV :=
    .fromNum 2394026564107420727433200628387514462817212225638746351800188703329891451411

theorem inverse : curveConfig.Inverse :=
  CurveConfig.inverse_of_mod rfl (by norm_num) (by rw [p_Fr]; decide +kernel)

def equiv : Fq ≃+* ZMod q := Fp.Element.equivOfEq p_Fq

/-- The curve over the integers modulo the modulus. -/
def config : TECurveConfig (ZMod q) where
  COEFF_A := (168700 : ℕ)
  COEFF_D := (168696 : ℕ)
  GENERATOR := .newUnchecked
    (995203441582195749578291179787384436505546430278305826713579947235728471134 : ℕ)
    (5472060717959818805561601436314318772137091100104008585924551046643952123905 : ℕ)

theorem map_config : BabyJubjubConfig.map equiv = config := by
  have hnum : ∀ n < 2 ^ 256, equiv (.fromNum n) = n := fun n => Fp.Element.equivOfEq_fromNum p_Fq
  simp only [TECurveConfig.map, BabyJubjubConfig, config, Te.Affine.newUnchecked, Te.Affine.map]
  rw [hnum _ (by norm_num), hnum _ (by norm_num), hnum _ (by norm_num), hnum _ (by norm_num)]

theorem complete_config : config.Complete where
  two_ne_zero := by decide +kernel
  a_ne_zero := by decide +kernel
  isSquare_a := ⟨(7214280148105020021932206872019688659210616427216992810330019057549499971851 : ℕ),
    by decide +kernel⟩
  not_isSquare_d := not_isSquare_of_powMod (by decide +kernel) (by decide +kernel)

/-- The addition of the curve is complete. -/
theorem complete : BabyJubjubConfig.Complete :=
  .of_map equiv (by rw [map_config]; exact complete_config)

abbrev Point := BabyJubjubConfig.Point complete

/-- The generator is on the curve. -/
theorem exists_generator : ∃ B : Point, BabyJubjubConfig.GENERATOR.Represents B := by
  rw [← Te.Affine.isOnCurve_iff, ← Te.Affine.isOnCurve_map equiv, Te.Affine.map_generator,
    map_config]
  decide +kernel

end BabyJubjub

/-! ### The orders are prime -/

/-- The primes that the certificates of the orders need, and the orders. -/
def orderCertificate : Certificate where
  steps :=
    [⟨3, 2, [(2, 1)]⟩, ⟨5, 2, [(2, 2)]⟩, ⟨11, 2, [(2, 1), (5, 1)]⟩, ⟨23, 5, [(2, 1), (11, 1)]⟩,
      ⟨47, 5, [(2, 1), (23, 1)]⟩, ⟨34123, 2, [(2, 1), (3, 1), (11, 2), (47, 1)]⟩,
      ⟨409477, 2, [(2, 2), (3, 1), (34123, 1)]⟩, ⟨14741173, 2, [(2, 2), (3, 2), (409477, 1)]⟩,
      ⟨58964693, 2, [(2, 2), (14741173, 1)]⟩, ⟨7, 3, [(2, 1), (3, 1)]⟩, ⟨17, 3, [(2, 4)]⟩,
      ⟨43, 3, [(2, 1), (3, 1), (7, 1)]⟩, ⟨30703, 3, [(2, 1), (3, 1), (7, 1), (17, 1), (43, 1)]⟩,
      ⟨13, 2, [(2, 2), (3, 1)]⟩, ⟨79, 3, [(2, 1), (3, 1), (13, 1)]⟩,
      ⟨41081, 3, [(2, 3), (5, 1), (13, 1), (79, 1)]⟩, ⟨82163, 2, [(2, 1), (41081, 1)]⟩,
      ⟨67, 2, [(2, 1), (3, 1), (11, 1)]⟩, ⟨22111, 6, [(2, 1), (3, 1), (5, 1), (11, 1), (67, 1)]⟩,
      ⟨132667, 5, [(2, 1), (3, 1), (22111, 1)]⟩, ⟨41, 6, [(2, 3), (5, 1)]⟩,
      ⟨1723, 3, [(2, 1), (3, 1), (7, 1), (41, 1)]⟩, ⟨17231, 13, [(2, 1), (5, 1), (1723, 1)]⟩,
      ⟨137849, 3, [(2, 3), (17231, 1)]⟩,
      ⟨3044861653679985063343, 5, [(2, 1), (3, 1), (11, 1), (30703, 1), (82163, 1), (132667, 1),
        (137849, 1)]⟩,
      ⟨198211423230930754013084525763697, 5, [(2, 4), (3, 1), (23, 1), (58964693, 1),
        (3044861653679985063343, 1)]⟩, ⟨269, 2, [(2, 2), (67, 1)]⟩, ⟨73, 5, [(2, 3), (3, 2)]⟩,
      ⟨307, 5, [(2, 1), (3, 2), (17, 1)]⟩, ⟨113, 3, [(2, 4), (7, 1)]⟩,
      ⟨2939, 2, [(2, 1), (13, 1), (113, 1)]⟩, ⟨5879, 11, [(2, 1), (2939, 1)]⟩,
      ⟨292386187, 2, [(2, 1), (3, 4), (307, 1), (5879, 1)]⟩,
      ⟨213441916511, 13, [(2, 1), (5, 1), (73, 1), (292386187, 1)]⟩,
      ⟨1361, 3, [(2, 4), (5, 1), (17, 1)]⟩, ⟨19, 2, [(2, 1), (3, 2)]⟩,
      ⟨2851, 2, [(2, 1), (3, 1), (5, 2), (19, 1)]⟩, ⟨3797, 2, [(2, 2), (13, 1), (73, 1)]⟩,
      ⟨531581, 2, [(2, 2), (5, 1), (7, 1), (3797, 1)]⟩,
      ⟨2551, 6, [(2, 1), (3, 1), (5, 2), (17, 1)]⟩,
      ⟨1224481, 13, [(2, 5), (3, 1), (5, 1), (2551, 1)]⟩,
      ⟨1257559732178653, 2, [(2, 2), (3, 1), (7, 1), (23, 1), (531581, 1), (1224481, 1)]⟩,
      ⟨4434155615661930479, 17, [(2, 1), (41, 1), (43, 1), (1257559732178653, 1)]⟩,
      ⟨172054593956031949258510691, 2, [(2, 1), (5, 1), (1361, 1), (2851, 1),
        (4434155615661930479, 1)]⟩,
      ⟨19757330305831588566944191468367130476339, 2, [(2, 1), (269, 1), (213441916511, 1),
        (172054593956031949258510691, 1)]⟩,
      ⟨276602624281642239937218680557139826668747, 2, [(2, 1), (7, 1),
        (19757330305831588566944191468367130476339, 1)]⟩,
      ⟨7237005577332262213973186563042994240857116359379907606001950938285454250989, 2, [(2, 2),
        (3, 1), (11, 1), (198211423230930754013084525763697, 1),
        (276602624281642239937218680557139826668747, 1)]⟩, ⟨12281, 3, [(2, 3), (5, 1), (307, 1)]⟩,
      ⟨283, 3, [(2, 1), (3, 1), (47, 1)]⟩, ⟨1699, 3, [(2, 1), (3, 1), (283, 1)]⟩,
      ⟨83, 2, [(2, 1), (41, 1)]⟩, ⟨499, 7, [(2, 1), (3, 1), (83, 1)]⟩, ⟨37, 2, [(2, 2), (3, 2)]⟩,
      ⟨167, 5, [(2, 1), (83, 1)]⟩, ⟨74149, 2, [(2, 2), (3, 1), (37, 1), (167, 1)]⟩,
      ⟨1036009829, 2, [(2, 2), (7, 1), (499, 1), (74149, 1)]⟩,
      ⟨35203613989421, 2, [(2, 2), (5, 1), (1699, 1), (1036009829, 1)]⟩,
      ⟨12954929948106929, 3, [(2, 4), (23, 1), (35203613989421, 1)]⟩,
      ⟨1710050753150114629, 6, [(2, 2), (3, 1), (11, 1), (12954929948106929, 1)]⟩,
      ⟨29, 2, [(2, 2), (7, 1)]⟩, ⟨44371, 2, [(2, 1), (3, 2), (5, 1), (17, 1), (29, 1)]⟩,
      ⟨6566909, 2, [(2, 2), (37, 1), (44371, 1)]⟩, ⟨457, 13, [(2, 3), (3, 1), (19, 1)]⟩,
      ⟨157, 5, [(2, 2), (3, 1), (13, 1)]⟩, ⟨1571, 2, [(2, 1), (5, 1), (157, 1)]⟩,
      ⟨2837227, 2, [(2, 1), (3, 1), (7, 1), (43, 1), (1571, 1)]⟩,
      ⟨187256983, 5, [(2, 1), (3, 1), (11, 1), (2837227, 1)]⟩,
      ⟨2567293236931, 2, [(2, 1), (3, 1), (5, 1), (457, 1), (187256983, 1)]⟩,
      ⟨431305263804409, 13, [(2, 3), (3, 1), (7, 1), (2567293236931, 1)]⟩,
      ⟨203928654140967434528233, 5, [(2, 3), (3, 2), (6566909, 1), (431305263804409, 1)]⟩,
      ⟨31, 3, [(2, 1), (3, 1), (5, 1)]⟩, ⟨311, 17, [(2, 1), (5, 1), (31, 1)]⟩,
      ⟨5521, 11, [(2, 4), (3, 1), (5, 1), (23, 1)]⟩, ⟨331, 3, [(2, 1), (3, 1), (5, 1), (11, 1)]⟩,
      ⟨19861, 11, [(2, 2), (3, 1), (5, 1), (331, 1)]⟩,
      ⟨62701, 2, [(2, 2), (3, 1), (5, 2), (11, 1), (19, 1)]⟩, ⟨89, 3, [(2, 3), (11, 1)]⟩,
      ⟨179, 2, [(2, 1), (89, 1)]⟩, ⟨23629, 2, [(2, 2), (3, 1), (11, 1), (179, 1)]⟩,
      ⟨567097, 7, [(2, 3), (3, 1), (23629, 1)]⟩,
      ⟨16356472538621, 2, [(2, 2), (5, 1), (23, 1), (62701, 1), (567097, 1)]⟩,
      ⟨623312455501769069, 2, [(2, 2), (7, 1), (1361, 1), (16356472538621, 1)]⟩,
      ⟨255074062430788457494141376149, 2, [(2, 2), (3, 1), (311, 1), (5521, 1), (19861, 1),
        (623312455501769069, 1)]⟩,
      ⟨6554484396890773809930967563523245729705921265872317281365359162392183254199, 6, [(2, 1),
        (3, 1), (12281, 1), (1710050753150114629, 1), (203928654140967434528233, 1),
        (255074062430788457494141376149, 1)]⟩, ⟨967, 5, [(2, 1), (3, 1), (7, 1), (23, 1)]⟩,
      ⟨2069, 2, [(2, 2), (11, 1), (47, 1)]⟩, ⟨4139, 2, [(2, 1), (2069, 1)]⟩,
      ⟨349, 2, [(2, 2), (3, 1), (29, 1)]⟩, ⟨59, 2, [(2, 1), (29, 1)]⟩,
      ⟨61, 2, [(2, 2), (3, 1), (5, 1)]⟩, ⟨43189, 2, [(2, 2), (3, 1), (59, 1), (61, 1)]⟩,
      ⟨709, 2, [(2, 2), (3, 1), (59, 1)]⟩, ⟨2837, 2, [(2, 2), (709, 1)]⟩,
      ⟨295049, 3, [(2, 3), (13, 1), (2837, 1)]⟩,
      ⟨25485742523, 2, [(2, 1), (43189, 1), (295049, 1)]⟩,
      ⟨202795150404015601, 7, [(2, 4), (3, 1), (5, 2), (19, 1), (349, 1), (25485742523, 1)]⟩,
      ⟨431548080059745198929, 3, [(2, 4), (7, 1), (19, 1), (202795150404015601, 1)]⟩,
      ⟨32151195060611136810608359, 3, [(2, 1), (3, 2), (4139, 1), (431548080059745198929, 1)]⟩,
      ⟨109, 6, [(2, 2), (3, 3)]⟩, ⟨6323, 2, [(2, 1), (29, 1), (109, 1)]⟩, ⟨257, 3, [(2, 8)]⟩,
      ⟨336157, 2, [(2, 2), (3, 1), (109, 1), (257, 1)]⟩, ⟨33409, 7, [(2, 7), (3, 2), (29, 1)]⟩,
      ⟨521, 3, [(2, 3), (5, 1), (13, 1)]⟩, ⟨97, 5, [(2, 5), (3, 1)]⟩,
      ⟨27743, 5, [(2, 1), (11, 1), (13, 1), (97, 1)]⟩, ⟨139, 2, [(2, 1), (3, 1), (23, 1)]⟩,
      ⟨128437, 5, [(2, 2), (3, 1), (7, 1), (11, 1), (139, 1)]⟩, ⟨513749, 2, [(2, 2), (128437, 1)]⟩,
      ⟨53, 2, [(2, 2), (13, 1)]⟩, ⟨1061, 2, [(2, 2), (5, 1), (53, 1)]⟩,
      ⟨10206821, 2, [(2, 2), (5, 1), (13, 1), (37, 1), (1061, 1)]⟩,
      ⟨81654569, 3, [(2, 3), (10206821, 1)]⟩,
      ⟨27892051421815855583579, 2, [(2, 1), (23, 1), (521, 1), (27743, 1), (513749, 1),
        (81654569, 1)]⟩,
      ⟨1863691091902891838383581623, 5, [(2, 1), (33409, 1), (27892051421815855583579, 1)]⟩,
      ⟨178259130663561045147472537592047227885001, 14, [(2, 3), (3, 2), (5, 4), (6323, 1),
        (336157, 1), (1863691091902891838383581623, 1)]⟩,
      ⟨2736030358979909402780800718157159386076813972158567259200215660948447373041, 31, [(2, 4),
        (3, 1), (5, 1), (11, 2), (17, 1), (967, 1), (32151195060611136810608359, 1),
        (178259130663561045147472537592047227885001, 1)]⟩]
  checked := by decide +kernel

/-- **The moduli of the scalar fields are prime.** -/
theorem prime_orders : ∀ p ∈ [Curve25519.l, Jubjub.l, BabyJubjub.l], p.Prime := by
  have hsteps : ∀ p ∈ [Curve25519.l, Jubjub.l, BabyJubjub.l],
      p ∈ orderCertificate.primes := by decide +kernel
  exact fun p hp => orderCertificate.prime (hsteps p hp)

/-! ### The orders of the generators -/

namespace Curve25519

theorem addOrderOf_generator {B : Point} (hB : Curve25519Config.GENERATOR.Represents B) :
    addOrderOf B = l := by
  have hl : l.Prime := prime_orders l (by simp)
  refine Te.addOrderOf_generator equiv hB (w := 253) hl.pos (by decide +kernel) ?_ ?_
  · rw [map_config]
    decide +kernel
  · intro p hp hdvd
    rw [(Nat.prime_dvd_prime_iff_eq hp hl).mp hdvd, Nat.div_self hl.pos, map_config]
    decide +kernel

end Curve25519

namespace Jubjub

theorem addOrderOf_generator {B : Point} (hB : JubjubConfig.GENERATOR.Represents B) :
    addOrderOf B = l := by
  have hl : l.Prime := prime_orders l (by simp)
  refine Te.addOrderOf_generator equiv hB (w := 252) hl.pos (by decide +kernel) ?_ ?_
  · rw [map_config]
    decide +kernel
  · intro p hp hdvd
    rw [(Nat.prime_dvd_prime_iff_eq hp hl).mp hdvd, Nat.div_self hl.pos, map_config]
    decide +kernel

end Jubjub

namespace BabyJubjub

theorem addOrderOf_generator {B : Point} (hB : BabyJubjubConfig.GENERATOR.Represents B) :
    addOrderOf B = 8 * l := by
  have hl : l.Prime := prime_orders l (by simp)
  have hdiv : ∀ p, p.Prime → p ∣ 8 * l → p = 2 ∨ p = l := by
    intro p hp hdvd
    rcases hp.dvd_mul.mp hdvd with hdvd | hdvd
    · exact Or.inl ((Nat.prime_dvd_prime_iff_eq hp Nat.prime_two).mp
        (hp.dvd_of_dvd_pow (show p ∣ 2 ^ 3 from hdvd)))
    · exact Or.inr ((Nat.prime_dvd_prime_iff_eq hp hl).mp hdvd)
  refine Te.addOrderOf_generator equiv hB (w := 254) (by decide +kernel) (by decide +kernel) ?_ ?_
  · rw [map_config]
    decide +kernel
  · intro p hp hdvd
    rw [map_config]
    rcases hdiv p hp hdvd with rfl | rfl
    · decide +kernel
    · rw [Nat.mul_div_cancel _ hl.pos]
      decide +kernel

end BabyJubjub

end ContractsStylus
