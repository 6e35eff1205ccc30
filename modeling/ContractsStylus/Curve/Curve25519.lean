import ContractsStylus.Crypto.FieldInstances
import ContractsStylus.Curve.TwistedEdwardsLaw

/-!
# Curve25519

The curve `-x² + y² = 1 + d x² y²` modulo `2 ^ 255 - 19`. The modulus is prime, `-1` is a square
and `d` is not, so the formulas are complete, and the order of the generator divides the modulus of
the scalar field. Each of these is computed, in the integers modulo the modulus.

## Elements and integers

The elements of the fields are in Montgomery form, which is no form to compute in by hand or by the
kernel. `equiv` carries every fact about the constants to the integers modulo the modulus, where it
is an equation of numbers: that `-1` is a square, that `d` is none, by Euler's criterion, and that
the generator is on the curve. The constants themselves are written as in the source, and are
compared with the numbers once.

The modulus is prime because of a certificate in the manner of Pratt: for every prime in it there is
an element of the right order, and what divides that order is prime by an earlier entry. One Boolean
function checks the whole list.

## Main definitions

* `Curve25519FqParam`, `Curve25519FrParam` — the base field and the scalar field
* `Curve25519Config` — the coefficients of the curve and its generator

## Main results

* `Curve25519.prime_q` — the modulus of the base field is prime
* `Curve25519.complete` — the formulas are complete
* `Curve25519.smul_generator` — the multiple of the generator by the modulus of the scalar field
-/

namespace ContractsStylus

/-- Base field parameters. -/
def Curve25519FqParam : FpParams 4 :=
  .ofNum 4 57896044618658097711785492504343953926634992332820282019728792003956564819949
    (by norm_num) (by norm_num) (by norm_num)

/-- Scalar field parameters. -/
def Curve25519FrParam : FpParams 4 :=
  .ofNum 4 7237005577332262213973186563042994240857116359379907606001950938285454250989
    (by norm_num) (by norm_num) (by norm_num)

namespace Curve25519

/-- Base field. -/
abbrev Fq := Fp.Element Curve25519FqParam

/-- Scalar field. -/
abbrev Fr := Fp.Element Curve25519FrParam

/-! ### The base field -/

/-- The modulus of the base field. -/
def q : ℕ := 2 ^ 255 - 19

/-- The modulus of the scalar field. -/
def l : ℕ := 7237005577332262213973186563042994240857116359379907606001950938285454250989

theorem p_Fq : Curve25519FqParam.p = q := FpParams.p_ofNum ..

theorem p_Fr : Curve25519FrParam.p = l := FpParams.p_ofNum ..

/-- The primes that the certificate of the modulus needs, and the modulus. -/
def certificate : Certificate where
  steps :=
    [⟨3, 2, [(2, 1)]⟩, ⟨17, 3, [(2, 4)]⟩, ⟨7, 3, [(2, 1), (3, 1)]⟩, ⟨239, 7, [(2, 1), (7, 1), (17,
      1)]⟩, ⟨479, 13, [(2, 1), (239, 1)]⟩, ⟨32573, 2, [(2, 2), (17, 1), (479, 1)]⟩, ⟨65147, 2, [(2,
      1), (32573, 1)]⟩, ⟨5, 2, [(2, 2)]⟩, ⟨11, 2, [(2, 1), (5, 1)]⟩, ⟨353, 3, [(2, 5), (11, 1)]⟩,
      ⟨29, 2, [(2, 2), (7, 1)]⟩, ⟨59, 2, [(2, 1), (29, 1)]⟩, ⟨487, 3, [(2, 1), (3, 5)]⟩, ⟨57467, 2,
      [(2, 1), (59, 1), (487, 1)]⟩, ⟨13, 2, [(2, 2), (3, 1)]⟩, ⟨131, 2, [(2, 1), (5, 1), (13, 1)]⟩,
      ⟨132049, 26, [(2, 4), (3, 2), (7, 1), (131, 1)]⟩, ⟨43, 3, [(2, 1), (3, 1), (7, 1)]⟩, ⟨23, 5,
      [(2, 1), (11, 1)]⟩, ⟨3727, 3, [(2, 1), (3, 4), (23, 1)]⟩, ⟨1923133, 2, [(2, 2), (3, 1), (43,
      1), (3727, 1)]⟩, ⟨31, 3, [(2, 1), (3, 1), (5, 1)]⟩, ⟨53, 2, [(2, 2), (13, 1)]⟩, ⟨107, 2, [(2,
      1), (53, 1)]⟩, ⟨37, 2, [(2, 2), (3, 2)]⟩, ⟨223, 3, [(2, 1), (3, 1), (37, 1)]⟩, ⟨173, 2, [(2,
      2), (43, 1)]⟩, ⟨4153, 5, [(2, 3), (3, 1), (173, 1)]⟩, ⟨41, 6, [(2, 3), (5, 1)]⟩, ⟨1723, 3,
      [(2, 1), (3, 1), (7, 1), (41, 1)]⟩, ⟨430751, 17, [(2, 1), (5, 3), (1723, 1)]⟩,
      ⟨31757755568855353, 10, [(2, 3), (3, 1), (31, 1), (107, 1), (223, 1), (4153, 1), (430751,
      1)]⟩, ⟨19, 2, [(2, 1), (3, 2)]⟩, ⟨83, 2, [(2, 1), (41, 1)]⟩, ⟨9463, 3, [(2, 1), (3, 1), (19,
      1), (83, 1)]⟩, ⟨37853, 2, [(2, 2), (9463, 1)]⟩, ⟨75707, 2, [(2, 1), (37853, 1)]⟩, ⟨2437, 2,
      [(2, 2), (3, 1), (7, 1), (29, 1)]⟩, ⟨97, 5, [(2, 5), (3, 1)]⟩, ⟨419, 2, [(2, 1), (11, 1), (19,
      1)]⟩, ⟨569003, 2, [(2, 1), (7, 1), (97, 1), (419, 1)]⟩, ⟨2773320623, 5, [(2, 1), (2437, 1),
      (569003, 1)]⟩, ⟨72106336199, 7, [(2, 1), (13, 1), (2773320623, 1)]⟩, ⟨47, 5, [(2, 1), (23,
      1)]⟩, ⟨127, 3, [(2, 1), (3, 2), (7, 1)]⟩, ⟨103, 5, [(2, 1), (3, 1), (17, 1)]⟩, ⟨991, 6, [(2,
      1), (3, 2), (5, 1), (11, 1)]⟩, ⟨8574133, 2, [(2, 2), (3, 1), (7, 1), (103, 1), (991, 1)]⟩,
      ⟨1919519569386763, 2, [(2, 1), (3, 1), (7, 1), (19, 1), (47, 2), (127, 1), (8574133, 1)]⟩,
      ⟨75445702479781427272750846543864801, 7, [(2, 5), (3, 2), (5, 2), (75707, 1), (72106336199,
      1), (1919519569386763, 1)]⟩,
      ⟨74058212732561358302231226437062788676166966415465897661863160754340907, 2, [(2, 1), (3, 1),
      (353, 1), (57467, 1), (132049, 1), (1923133, 1), (31757755568855353, 1),
      (75445702479781427272750846543864801, 1)]⟩,
      ⟨57896044618658097711785492504343953926634992332820282019728792003956564819949, 2, [(2, 2),
      (3, 1), (65147, 1), (74058212732561358302231226437062788676166966415465897661863160754340907,
      1)]⟩]
  checked := by decide +kernel

/-- **The modulus of the base field is prime.** -/
theorem prime_q : q.Prime := certificate.prime (by decide +kernel)

instance instFactPrimeQ : Fact q.Prime := ⟨prime_q⟩

instance instFactPrime : Fact Curve25519FqParam.p.Prime := ⟨p_Fq ▸ prime_q⟩

/-- The base field is that of the integers modulo `q`. -/
def equiv : Fq ≃+* ZMod q := Fp.Element.equivOfEq p_Fq

end Curve25519

/-! ### The curve -/

open Curve25519

/-- Curve25519's curve details. -/
def Curve25519Config : TECurveConfig Fq where
  COEFF_A := (Fp.Element.fromNum 1).constNeg
  COEFF_D :=
    .fromNum 37095705934669439343138083508754565189542113879843219016388785533085940283555
  GENERATOR := .newUnchecked
    (.fromNum 15112221349535400772501151409588531511454012693041857206046113283949847762202)
    (.fromNum 46316835694926478169428394003475163141307993866256225615783033603165251855960)

namespace Curve25519

open Te

/-- The configuration, in the integers modulo `q`. -/
def config : TECurveConfig (ZMod q) where
  COEFF_A := -1
  COEFF_D :=
    (37095705934669439343138083508754565189542113879843219016388785533085940283555 : ℕ)
  GENERATOR := .newUnchecked
    (15112221349535400772501151409588531511454012693041857206046113283949847762202 : ℕ)
    (46316835694926478169428394003475163141307993866256225615783033603165251855960 : ℕ)

theorem map_config : Curve25519Config.map equiv = config := by
  have hnum : ∀ n < 2 ^ 256, equiv (.fromNum n) = n := fun n => Fp.Element.equivOfEq_fromNum p_Fq
  rw [TECurveConfig.map, Curve25519Config, config, Affine.newUnchecked, Affine.newUnchecked,
    Affine.map, Fp.Element.constNeg_eq, map_neg]
  rw [hnum _ (by norm_num), hnum _ (by norm_num), hnum _ (by norm_num), hnum _ (by norm_num),
    Nat.cast_one]

theorem complete_config : config.Complete where
  two_ne_zero := by decide +kernel
  a_ne_zero := by decide +kernel
  isSquare_a := ZMod.exists_sq_eq_neg_one_iff.mpr (by decide +kernel)
  not_isSquare_d := not_isSquare_of_powMod (by decide +kernel) (by decide +kernel)

/-- **The formulas are complete** on Curve25519. -/
theorem complete : Curve25519Config.Complete :=
  .of_map equiv (by rw [map_config]; exact complete_config)

/-- The points of the curve. -/
abbrev Point := Curve25519Config.Point complete

/-- The generator is on the curve. -/
theorem exists_generator : ∃ B : Point, Curve25519Config.GENERATOR.Represents B := by
  rw [← Affine.isOnCurve_iff, ← Affine.isOnCurve_map equiv, Affine.map_generator, map_config]
  decide +kernel

/-- **The order of the generator** divides the modulus of the scalar field. -/
theorem smul_generator {B : Point} (hB : Curve25519Config.GENERATOR.Represents B) :
    l • B = 0 := by
  have hmul := hB.ofAffine.mulProjective (bitsBe 253 l)
  rw [ofBitsBe_bitsBe, Nat.mod_eq_of_lt (by decide +kernel)] at hmul
  rw [← hmul.isZero_iff, ← Projective.isZero_map equiv, Projective.map_mulProjective, map_config]
  have hgenerator := Projective.map_generator equiv (P := Curve25519Config)
  rw [map_config, Projective.generator] at hgenerator
  rw [hgenerator]
  decide +kernel

end Curve25519

end ContractsStylus
