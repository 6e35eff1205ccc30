import ContractsStylus.Curve.EdwardsInstances
import ContractsStylus.Curve.WeierstrassInstances
import ContractsStylus.Library.PowerResidues

/-!
# Multiplicative generators

Every field has a constant that is documented as an element of multiplicative order `MODULUS - 1`,
of which every element is to be a power. On most of the fields it is. On those of Jubjub and of Baby
Jubjub it is not: the constants there are the same small numbers as on other fields, and their
powers are only the cubes, the squares, the fourth powers, or the powers with the exponent 78.

## Finding the exponent

The order of an element is read off its powers, once the factors of the modulus less one are known.
These are in the certificates that the moduli are prime, so nothing is factored here. In a cyclic
group the order decides which elements are powers: those whose exponent is the quotient of the two
numbers. `GeneratesPowers` states order and powers alike for all constants, with the exponent one
where the constant is right.

## Main definitions

* `VestaParam.GENERATOR` and so on — the constants
* `Fp.Element.GeneratesPowers` — the powers of an element are those with a given exponent

## Main results

* `field_generators` — the exponent, for each of the fields
-/

namespace ContractsStylus

namespace Fp.Element

variable {N n g k : ℕ} {P : FpParams N}

/-- **The powers of an element**, other than zero, are the `k`-th powers. With `k = 1` the element
generates the field. -/
structure GeneratesPowers (GENERATOR : Element P) (k : ℕ) : Prop where
  orderOf_mul : orderOf GENERATOR * k = P.p - 1
  exists_eq_pow_iff : ∀ x : Element P, x ≠ 0 →
    ((∃ i : ℕ, x = GENERATOR ^ i) ↔ ∃ y, x = y ^ k)

/-- What is left to compute, with integers modulo the modulus. -/
theorem generatesPowers (hP : P.p = n) (hg : g < 2 ^ (64 * N))
    (h : n.Prime ∧ orderOf (g : ZMod n) * k = n - 1) :
    (fromNum g : Element P).GeneratesPowers k := by
  have : Fact n.Prime := ⟨h.1⟩
  have hequiv := equivOfEq_fromNum hP hg
  constructor
  · rw [hP, ← h.2, ← hequiv]
    exact congrArg (· * k) (orderOf_injective (equivOfEq hP).toMonoidHom (equivOfEq hP).injective
      (fromNum g)).symm
  · intro x hx
    have hcard : orderOf (g : ZMod n) * k = Nat.card (ZMod n) - 1 := by rw [h.2, Nat.card_zmod]
    have hiff := exists_eq_pow_iff hcard ((map_ne_zero_iff _ (equivOfEq hP).injective).mpr hx)
    rw [← hequiv] at hiff
    simp only [← map_pow, (equivOfEq hP).injective.eq_iff] at hiff
    rw [hiff]
    constructor
    · rintro ⟨y, hy⟩
      refine ⟨(equivOfEq hP).symm y, (equivOfEq hP).injective ?_⟩
      rw [hy, map_pow, (equivOfEq hP).apply_symm_apply]
    · rintro ⟨y, rfl⟩
      exact ⟨equivOfEq hP y, map_pow _ _ _⟩

end Fp.Element

/-! ### The constants -/

def VestaParam.GENERATOR : Fp.Element VestaParam := .fromNum 5

def BabyBearParam.GENERATOR : Fp.Element BabyBearParam := .fromNum 31

def BLS12Param.GENERATOR : Fp.Element BLS12Param := .fromNum 7

def BN256Param.GENERATOR : Fp.Element BN256Param := .fromNum 7

def GoldiLocksParam.GENERATOR : Fp.Element GoldiLocksParam := .fromNum 7

def PallasParam.GENERATOR : Fp.Element PallasParam := .fromNum 5

def Curve25519FqParam.GENERATOR : Fp.Element Curve25519FqParam := .fromNum 2

def Curve25519FrParam.GENERATOR : Fp.Element Curve25519FrParam := .fromNum 2

def JubjubFqParam.GENERATOR : Fp.Element JubjubFqParam := .fromNum 5

def JubjubFrParam.GENERATOR : Fp.Element JubjubFrParam := .fromNum 5

def BabyJubjubFqParam.GENERATOR : Fp.Element BabyJubjubFqParam := .fromNum 2

def BabyJubjubFrParam.GENERATOR : Fp.Element BabyJubjubFrParam := .fromNum 2

def Secp256k1FqParam.GENERATOR : Fp.Element Secp256k1FqParam := .fromNum 3

def Secp256k1FrParam.GENERATOR : Fp.Element Secp256k1FrParam := .fromNum 7

def StarknetFqParam.GENERATOR : Fp.Element StarknetFqParam := .fromNum 3

def StarknetFrParam.GENERATOR : Fp.Element StarknetFrParam := .fromNum 5

open Fp.Element

/-- **The constants of the fields.** They generate the fields, as they are documented to, on all but
those of Jubjub and Baby Jubjub. There, of the elements other than zero, their powers are only the
cubes and the squares, and only the powers with the exponents 78 and 4. -/
theorem field_generators :
    VestaParam.GENERATOR.GeneratesPowers 1 ∧
    BabyBearParam.GENERATOR.GeneratesPowers 1 ∧
    BLS12Param.GENERATOR.GeneratesPowers 1 ∧
    BN256Param.GENERATOR.GeneratesPowers 1 ∧
    GoldiLocksParam.GENERATOR.GeneratesPowers 1 ∧
    PallasParam.GENERATOR.GeneratesPowers 1 ∧
    Curve25519FqParam.GENERATOR.GeneratesPowers 1 ∧
    Curve25519FrParam.GENERATOR.GeneratesPowers 1 ∧
    JubjubFqParam.GENERATOR.GeneratesPowers 3 ∧
    JubjubFrParam.GENERATOR.GeneratesPowers 2 ∧
    BabyJubjubFqParam.GENERATOR.GeneratesPowers 78 ∧
    BabyJubjubFrParam.GENERATOR.GeneratesPowers 4 ∧
    Secp256k1FqParam.GENERATOR.GeneratesPowers 1 ∧
    Secp256k1FrParam.GENERATOR.GeneratesPowers 1 ∧
    StarknetFqParam.GENERATOR.GeneratesPowers 1 ∧
    StarknetFrParam.GENERATOR.GeneratesPowers 1 := by
  refine ⟨?_, ?_, ?_, ?_, ?_, ?_, ?_, ?_, ?_, ?_, ?_, ?_, ?_, ?_, ?_, ?_⟩
  · exact generatesPowers (FpParams.p_ofNum ..) (by norm_num)
      (fieldCertificate.prime_and_orderOf (by decide +kernel))
  · exact generatesPowers (FpParams.p_ofNum ..) (by norm_num)
      (fieldCertificate.prime_and_orderOf (by decide +kernel))
  · exact generatesPowers (FpParams.p_ofNum ..) (by norm_num)
      (fieldCertificate.prime_and_orderOf (by decide +kernel))
  · exact generatesPowers (FpParams.p_ofNum ..) (by norm_num)
      (fieldCertificate.prime_and_orderOf (by decide +kernel))
  · exact generatesPowers (FpParams.p_ofNum ..) (by norm_num)
      (fieldCertificate.prime_and_orderOf (by decide +kernel))
  · exact generatesPowers (FpParams.p_ofNum ..) (by norm_num)
      (fieldCertificate.prime_and_orderOf (by decide +kernel))
  · exact generatesPowers Curve25519.p_Fq (by norm_num)
      (Curve25519.certificate.prime_and_orderOf (by decide +kernel))
  · exact generatesPowers Curve25519.p_Fr (by norm_num)
      (orderCertificate.prime_and_orderOf (by decide +kernel))
  · exact generatesPowers Jubjub.p_Fq (by norm_num)
      (fieldCertificate.prime_and_orderOf (by decide +kernel))
  · exact generatesPowers Jubjub.p_Fr (by norm_num)
      (orderCertificate.prime_and_orderOf (by decide +kernel))
  · exact generatesPowers BabyJubjub.p_Fq (by norm_num)
      (fieldCertificate.prime_and_orderOf (by decide +kernel))
  · exact generatesPowers BabyJubjub.p_Fr (by norm_num)
      (orderCertificate.prime_and_orderOf (by decide +kernel))
  · exact generatesPowers Secp256k1.p_Fq (by norm_num)
      (weierstrassCertificate.prime_and_orderOf (by decide +kernel))
  · exact generatesPowers Secp256k1.p_Fr (by norm_num)
      (weierstrassCertificate.prime_and_orderOf (by decide +kernel))
  · exact generatesPowers Starknet.p_Fq (by norm_num)
      (Starknet.certificate.prime_and_orderOf (by decide +kernel))
  · exact generatesPowers Starknet.p_Fr (by norm_num)
      (weierstrassCertificate.prime_and_orderOf (by decide +kernel))

end ContractsStylus
