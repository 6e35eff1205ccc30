import ContractsStylus.Crypto.FieldInstances
import ContractsStylus.Curve.ShortWeierstrassLaw

/-!
# The Starknet curve

The curve `y² = x³ + x + b` modulo `2 ^ 251 + 17 * 2 ^ 192 + 1`. The modulus is prime and the
discriminant is not zero, so its points are a group. Which coordinates are those of a point is an
equation of integers modulo the modulus.

## Points by computation

The hash that uses this curve has constants that are points. Whether coordinates are those of a
point is decided by the equation of the curve between numbers, modulo the modulus, and
`exists_point` takes a proof of that to a point; nothing is computed in Montgomery form.

The modulus is prime by a certificate, as for the other curves.

## Main definitions

* `StarknetFqParam`, `StarknetFrParam` — the base field and the scalar field
* `StarknetCurveConfig` — the coefficients of the curve

## Main results

* `Starknet.prime_q` — the modulus of the base field is prime
* `Starknet.elliptic` — the curve is not singular
* `Starknet.exists_point` — coordinates that satisfy the equation are those of a point
-/

namespace ContractsStylus

/-- Base field parameters. -/
def StarknetFqParam : FpParams 4 :=
  .ofNum 4 3618502788666131213697322783095070105623107215331596699973092056135872020481
    (by norm_num) (by norm_num) (by norm_num)

/-- Scalar field parameters. -/
def StarknetFrParam : FpParams 4 :=
  .ofNum 4 3618502788666131213697322783095070105526743751716087489154079457884512865583
    (by norm_num) (by norm_num) (by norm_num)

namespace Starknet

/-- Base field. -/
abbrev Fq := Fp.Element StarknetFqParam

/-! ### The base field -/

/-- The modulus of the base field. -/
def q : ℕ := 2 ^ 251 + 17 * 2 ^ 192 + 1

/-- The modulus of the scalar field. -/
def l : ℕ := 3618502788666131213697322783095070105526743751716087489154079457884512865583

theorem p_Fq : StarknetFqParam.p = q := FpParams.p_ofNum ..

theorem p_Fr : StarknetFrParam.p = l := FpParams.p_ofNum ..

/-- The primes that the certificate of the modulus needs, and the modulus. -/
def certificate : Certificate where
  steps :=
    [⟨5, 2, [(2, 2)]⟩, ⟨3, 2, [(2, 1)]⟩, ⟨7, 3, [(2, 1), (3, 1)]⟩, ⟨17, 3, [(2, 4)]⟩, ⟨43, 3, [(2,
      1), (3, 1), (7, 1)]⟩, ⟨211, 2, [(2, 1), (3, 1), (5, 1), (7, 1)]⟩, ⟨1233929, 6, [(2, 3), (17,
      1), (43, 1), (211, 1)]⟩, ⟨2467859, 2, [(2, 1), (1233929, 1)]⟩, ⟨4935719, 17, [(2, 1),
      (2467859, 1)]⟩, ⟨98714381, 2, [(2, 2), (5, 1), (4935719, 1)]⟩, ⟨13, 2, [(2, 2), (3, 1)]⟩, ⟨11,
      2, [(2, 1), (5, 1)]⟩, ⟨23, 5, [(2, 1), (11, 1)]⟩, ⟨829, 2, [(2, 2), (3, 2), (23, 1)]⟩, ⟨8291,
      2, [(2, 1), (5, 1), (829, 1)]⟩, ⟨9269339, 6, [(2, 1), (13, 1), (43, 1), (8291, 1)]⟩,
      ⟨166848103, 6, [(2, 1), (3, 2), (9269339, 1)]⟩,
      ⟨3618502788666131213697322783095070105623107215331596699973092056135872020481, 3, [(2, 192),
      (5, 1), (7, 1), (98714381, 1), (166848103, 1)]⟩]
  checked := by decide +kernel

/-- **The modulus of the base field is prime.** -/
theorem prime_q : q.Prime := certificate.prime (by decide +kernel)

instance instFactPrimeQ : Fact q.Prime := ⟨prime_q⟩

instance instFactPrime : Fact StarknetFqParam.p.Prime := ⟨p_Fq ▸ prime_q⟩

/-- The base field is that of the integers modulo `q`. -/
def equiv : Fq ≃+* ZMod q := Fp.Element.equivOfEq p_Fq

end Starknet

/-! ### The curve -/

/-- Starknet's curve details. -/
def StarknetCurveConfig : SWCurveConfig Starknet.Fq where
  COEFF_A := .fromNum 1
  COEFF_B := .fromNum 3141592653589793238462643383279502884197169399375105820974944592307816406665
  extensionDegree := 1

namespace Starknet

open Sw

/-- The coefficient `COEFF_B`, as an integer. -/
def coeffB : ℕ := 3141592653589793238462643383279502884197169399375105820974944592307816406665

theorem equiv_coeffA : equiv StarknetCurveConfig.COEFF_A = (1 : ℕ) :=
  Fp.Element.equivOfEq_fromNum p_Fq (by norm_num)

theorem equiv_coeffB : equiv StarknetCurveConfig.COEFF_B = coeffB :=
  Fp.Element.equivOfEq_fromNum p_Fq (m := coeffB) (by norm_num [coeffB])

/-- **The curve is not singular.** -/
theorem elliptic : StarknetCurveConfig.Elliptic where
  two_ne_zero := fun h => by
    have htwo := congrArg equiv h
    rw [map_ofNat, map_zero] at htwo
    exact absurd htwo (by decide +kernel)
  disc_ne_zero := fun h => by
    have hdisc := congrArg equiv h
    simp only [map_add, map_mul, map_pow, map_ofNat, map_zero, equiv_coeffA, equiv_coeffB] at hdisc
    exact absurd hdisc (by decide +kernel)

/-- The points of the curve. -/
abbrev Point := StarknetCurveConfig.Point

/-- **Coordinates that satisfy the equation** modulo `q` are those of a point. -/
theorem exists_point {x y : ℕ} (hx : x < 2 ^ 256) (hy : y < 2 ^ 256)
    (h : y ^ 2 % q = (x ^ 3 + x + coeffB) % q) :
    ∃ A : Point, (Affine.newUnchecked (.fromNum x) (.fromNum y) : Affine Fq).Represents A := by
  have hnum : ∀ n < 2 ^ 256, equiv (.fromNum n) = n := fun n => Fp.Element.equivOfEq_fromNum p_Fq
  have heq : (Fp.Element.fromNum y : Fq) ^ 2 = Fp.Element.fromNum x ^ 3 +
      StarknetCurveConfig.COEFF_A * Fp.Element.fromNum x + StarknetCurveConfig.COEFF_B := by
    refine equiv.injective ?_
    simp only [map_add, map_mul, map_pow, equiv_coeffA, equiv_coeffB, hnum x hx, hnum y hy]
    have hcast := (ZMod.natCast_eq_natCast_iff' _ _ q).mpr h
    push_cast at hcast ⊢
    rw [hcast, one_mul]
  exact ⟨.some _ _ (elliptic.nonsingular_iff.mpr heq), rfl, rfl, rfl⟩

end Starknet

end ContractsStylus
