import ContractsStylus.Curve.EdwardsInstances
import ContractsStylus.Library.GroupOrders

/-!
# Cofactors of twisted Edwards curves

The numbers of points of Curve25519, Jubjub and Baby Jubjub. They are the products of the cofactors
and the moduli of the scalar fields, so clearing the cofactor always leads to the subgroup that the
constructors check for. On two of the curves the generator has the order of the scalar field. On
Baby Jubjub the constant is a generator of all points, so it is not in that subgroup.

## Counting without counting

The number of points is not counted, and no theorem about the numbers of points of curves is used.
A coordinate has at most two points, which bounds the number by twice that of the field. The
generator accounts for the modulus of the scalar field. A point of order eight that is not a double
accounts for the rest: it shows that eight divides the number, and, because nothing is halved to
it, that sixteen does not. What the two account for is more than a third of the bound, so that is
the number.

`Te.Torsion` carries such a point with the proof that it was checked. The check is one Boolean
function, so that the kernel evaluates it once for each curve.

## The orders of the generators

`GENERATOR` is documented as a generator of the subgroup, and on two of the curves it is one. On
Baby Jubjub its order is eight times that. Since there are as many points, it generates all of them,
and the theorem says so; the check for the subgroup refuses it.

## Main definitions

* `Te.CofactorClears` — what the number of points means for the cofactor
* `Te.Torsion` — points of order eight that are not doubles
* `Curve25519.torsion`, `Jubjub.torsion`, `BabyJubjub.torsion` — points of order eight

## Main results

* `Te.natCard_point` — the number of points
* `Te.exists_mulAffine_eq` — a generator of as many points as there are generates all
* `cofactors_clear` — the three curves
* `generator_orders` — the orders of the generators
-/

namespace ContractsStylus

namespace Te

/-! ### The number of points

The bound comes from the second coordinate, and the two elements that account for the points are the
generator, or its eighth multiple, and a point of order eight. -/

section Count

variable {F : Type} [Field F] [Finite F] {P : TECurveConfig F} {hP : P.Complete}

theorem finite_point : Finite (P.Point hP) :=
  finite_of_eq_or_eq_neg (f := Edwards.Point.y) fun _ _ => Edwards.Point.eq_or_eq_neg_of_y_eq

theorem natCard_point_le : Nat.card (P.Point hP) ≤ 2 * Nat.card F :=
  natCard_le_of_eq_or_eq_neg (f := Edwards.Point.y) fun _ _ => Edwards.Point.eq_or_eq_neg_of_y_eq

/-- **The number of points** is eight times the order of one of them, when that is odd and not too
small, and a point of order eight is not a double. -/
theorem natCard_point {B T : P.Point hP} {l : ℕ} (hodd : Odd l) (hB : addOrderOf B = l)
    (hT : addOrderOf T = 8) (hdouble : ¬ IsSquare ((1 - T.y ^ 2) * (P.COEFF_A - P.COEFF_D)))
    (hlt : 2 * Nat.card F < 24 * l) : Nat.card (P.Point hP) = 8 * l := by
  have : Finite (P.Point hP) := finite_point
  -- four times the point is the only one of order two
  have hfour : 2 • 4 • T = 0 := by
    rw [← mul_nsmul', ← addOrderOf_dvd_iff_nsmul_eq_zero, hT]
  have hfour0 : 4 • T ≠ 0 := by
    rw [ne_eq, ← addOrderOf_dvd_iff_nsmul_eq_zero, hT]
    decide
  have hzero : ∀ A : P.Point hP, 2 • A = 0 → A ∈ AddSubgroup.zmultiples T := by
    intro A hA
    by_cases hA0 : A = 0
    · rw [hA0]
      exact zero_mem _
    · rw [Edwards.Point.eq_of_two_nsmul_eq_zero hA hfour hA0 hfour0]
      exact nsmul_mem (AddSubgroup.mem_zmultiples T) 4
  have hne : ∀ A : P.Point hP, 2 • A ≠ T := by
    rintro A rfl
    rw [two_nsmul] at hdouble
    exact hdouble A.isSquare_of_double
  refine natCard_eq_two_pow_mul (k := 3) hodd hB hT
    (fun A => mem_zmultiples_of_two_nsmul hzero hne) (natCard_point_le.trans_lt ?_)
  omega

end Count

/-! ### The cofactor

In a group whose order is the product of the cofactor and the modulus, every element times the
cofactor is in the subgroup. -/

variable {F : Type} [Field F] [DecidableEq F] {N : ℕ} {R : FpParams N}

/-- **What the cofactor is for.** There are as many points as the cofactor and the modulus of the
scalar field say. Clearing the cofactor of any point of the curve gives a point of the subgroup, and
the check for the subgroup accepts what clearing can give and nothing else. These are the multiples
of the cleared generator, each by one element of the scalar field. -/
structure CofactorClears (P : TECurveConfig F) (c : CurveConfig R) : Prop where
  natCard : ∀ hP : P.Complete, Nat.card (P.Point hP) = c.cofactor * R.p
  clearCofactor : ∀ a : Affine F, a.isOnCurve P = true → ∃ b, a.clearCofactor P c = some b ∧
    b.isOnCurve P = true ∧ b.isInPrimeOrderSubgroup P R = true
  check_iff : ∀ b : Affine F, b.isOnCurve P = true → (b.isInPrimeOrderSubgroup P R = true ↔
    ∃ a : Affine F, a.isOnCurve P = true ∧ a.clearCofactor P c = some b)
  existsUnique : ∃ g, P.GENERATOR.clearCofactor P c = some g ∧ ∀ b : Affine F,
    b.isOnCurve P = true → b.isInPrimeOrderSubgroup P R = true → ∃! k : Fp.Element R,
      Affine.ofProjective (P.mulAffine g k.intoBigint.bitBeIter) = some b

variable {P : TECurveConfig F} {hP : P.Complete} {c : CurveConfig R} {B : P.Point hP}

theorem CofactorClears.of_natCard [Finite F] (hc : c.Inverse)
    (hcard : Nat.card (P.Point hP) = c.cofactor * R.p) (hB : P.GENERATOR.Represents B)
    (horder : addOrderOf (c.cofactor • B) = R.p) : CofactorClears P c := by
  have : Finite (P.Point hP) := finite_point
  have hall : ∀ A : P.Point hP, (c.cofactor * R.p) • A = 0 := fun A => by
    rw [← hcard]
    exact card_nsmul_eq_zero'
  have hclear : ∀ (a : Affine F) (A : P.Point hP), a.Represents A →
      ∃ b, a.clearCofactor P c = some b ∧ b.isOnCurve P = true ∧
        b.isInPrimeOrderSubgroup P R = true := by
    intro a A hA
    obtain ⟨b, hb, hrep⟩ := hA.mulByCofactor (c := c)
    refine ⟨b, hb, Affine.isOnCurve_iff.mpr ⟨_, hrep⟩, hrep.isInPrimeOrderSubgroup_iff.mpr ?_⟩
    rw [← mul_nsmul, hall]
  refine ⟨fun _ => hcard, fun a ha => ?_, fun b hb => ⟨fun hsub => ?_, ?_⟩, ?_⟩
  · obtain ⟨A, hA⟩ := Affine.isOnCurve_iff.mp ha
    exact hclear a A hA
  · obtain ⟨A, hA⟩ : ∃ A : P.Point hP, b.Represents A := Affine.isOnCurve_iff.mp hb
    obtain ⟨a, ha, hrep⟩ := hA.mulByCofactorInv (c := c)
    have hinv := (hA.mulByCofactor_inv hc (hA.isInPrimeOrderSubgroup_iff.mp hsub)).2
    rw [ha] at hinv
    exact ⟨a, Affine.isOnCurve_iff.mpr ⟨_, hrep⟩, hinv⟩
  · rintro ⟨a, ha, hab⟩
    obtain ⟨A, hA⟩ := Affine.isOnCurve_iff.mp ha
    obtain ⟨b', hb', -, hsub⟩ := hclear a A hA
    rwa [← Option.some.inj (hab.symm.trans hb')] at hsub
  · obtain ⟨g, hg, hrep⟩ := hB.mulByCofactor (c := c)
    refine ⟨g, hg, fun b hb hsub => ?_⟩
    obtain ⟨A, hA⟩ : ∃ A : P.Point hP, b.Represents A := Affine.isOnCurve_iff.mp hb
    have heq : ∀ k : Fp.Element R,
        Affine.ofProjective (P.mulAffine g k.intoBigint.bitBeIter) = some b ↔
          k.intoBigint.toNat • c.cofactor • B = A := by
      intro k
      have hmul := hrep.mulAffine k.intoBigint.bitBeIter
      rw [Uint.ofBitsBe_bitBeIter] at hmul
      rw [(Projective.represents_iff.mp hmul).2, Option.some_inj, show b = ⟨A.x, A.y⟩ from hA,
        Affine.mk.injEq, Edwards.Point.ext_iff]
    refine (existsUnique_congr heq).mpr (existsUnique_scalar horder ?_)
    exact mem_zmultiples_of_nsmul_eq_zero horder hcard R.p_pos hc.coprime
      (hA.isInPrimeOrderSubgroup_iff.mp hsub)

/-- **A generator of as many points as there are** generates all of them. -/
theorem exists_mulAffine_eq (hB : P.GENERATOR.Represents B)
    [Finite F] (horder : addOrderOf B = Nat.card (P.Point hP)) {a : Affine F}
    (ha : a.isOnCurve P = true) :
    ∃ scalar, Affine.ofProjective (P.mulAffine P.GENERATOR scalar) = some a := by
  have : Finite (P.Point hP) := finite_point
  obtain ⟨A, hA⟩ : ∃ A : P.Point hP, a.Represents A := Affine.isOnCurve_iff.mp ha
  have hmem : A ∈ AddSubgroup.zmultiples B :=
    mem_zmultiples_of_nsmul_eq_zero horder (Nat.one_mul _).symm Nat.card_pos
      (Nat.coprime_one_left _) card_nsmul_eq_zero'
  obtain ⟨n, hn⟩ := (AddSubmonoid.mem_multiples_iff _ _).mp
    (mem_multiples_iff_mem_zmultiples.mpr hmem)
  refine ⟨bitsBe n n, ?_⟩
  have hmul := hB.mulAffine (bitsBe n n)
  rw [ofBitsBe_bitsBe, Nat.mod_eq_of_lt Nat.lt_two_pow_self, hn] at hmul
  rw [(Projective.represents_iff.mp hmul).2, Option.some_inj]
  exact hA.symm

section Torsion

variable {q : ℕ} [Fact q.Prime]

/-- The test of whether a point has order eight and is not a double. -/
def Affine.torsionCheck (P : TECurveConfig (ZMod q)) (a : Affine (ZMod q)) : Bool :=
  a.isOnCurve P && (P.mulProjective (.ofAffine a) (bitsBe 4 8)).isZero &&
    !(P.mulProjective (.ofAffine a) (bitsBe 4 4)).isZero && 2 < q &&
    powMod q ((1 - a.y ^ 2) * (P.COEFF_A - P.COEFF_D)).val (q / 2) = q - 1

/-- A point of order eight that is not a double. -/
structure Torsion (P : TECurveConfig (ZMod q)) where
  point : Affine (ZMod q)
  checked : point.torsionCheck P = true

namespace Torsion

variable {P : TECurveConfig (ZMod q)} (T : Torsion P)

theorem spec : T.point.isOnCurve P = true ∧
    (P.mulProjective (.ofAffine T.point) (bitsBe 4 8)).isZero = true ∧
    (P.mulProjective (.ofAffine T.point) (bitsBe 4 4)).isZero = false ∧
    ¬ IsSquare ((1 - T.point.y ^ 2) * (P.COEFF_A - P.COEFF_D)) := by
  have hchecked := T.checked
  simp only [Affine.torsionCheck, Bool.and_eq_true, Bool.not_eq_true', decide_eq_true_iff]
    at hchecked
  obtain ⟨⟨⟨⟨hcurve, height⟩, hfour⟩, hq⟩, hpow⟩ := hchecked
  refine ⟨hcurve, height, hfour, ?_⟩
  have hsquare := not_isSquare_of_powMod hq hpow
  rwa [ZMod.natCast_zmod_val] at hsquare

end Torsion

end Torsion

/-- What is left to compute, with integers modulo the modulus of the base field. -/
theorem cofactorClears_of_map {q : ℕ} [Fact q.Prime] (φ : F ≃+* ZMod q) (hR : R.p.Prime)
    (hc : c.Inverse) (hcofactor : c.cofactor = 8) (hB : P.GENERATOR.Represents B)
    (hdvd : addOrderOf B ∣ 8 * R.p) (hndvd : ¬ addOrderOf B ∣ 8) (hlt : 2 * q < 24 * R.p)
    {Q : TECurveConfig (ZMod q)} (hQ : P.map φ = Q) (T : Torsion Q) : CofactorClears P c := by
  subst hQ
  obtain ⟨hcurve, height, hfour, hdouble⟩ := T.spec
  have : Finite F := Finite.of_equiv _ φ.symm.toEquiv
  have : Fact R.p.Prime := ⟨hR⟩
  have horder : addOrderOf (8 • B) = R.p := by
    refine addOrderOf_eq_prime ?_ ?_
    · rwa [← mul_nsmul, ← addOrderOf_dvd_iff_nsmul_eq_zero]
    · rwa [ne_eq, ← addOrderOf_dvd_iff_nsmul_eq_zero]
  -- the point over the field of the curve
  let T' : Affine F := ⟨φ.symm T.point.x, φ.symm T.point.y⟩
  have hmap : T'.map φ = T.point := by
    rw [Affine.map, φ.apply_symm_apply, φ.apply_symm_apply]
  have hT : T'.isOnCurve P = true := by
    rw [← Affine.isOnCurve_map φ, hmap]
    exact hcurve
  obtain ⟨A, hA⟩ : ∃ A : P.Point hP, T'.Represents A := Affine.isOnCurve_iff.mp hT
  have hA8 : addOrderOf A = 2 ^ (2 + 1) := by
    refine addOrderOf_eq_prime_pow ?_ ?_
    · rw [nsmul_eq_zero_iff φ hA (w := 4) (by norm_num), hmap]
      exact ne_true_of_eq_false hfour
    · rw [nsmul_eq_zero_iff φ hA (w := 4) (by norm_num), hmap]
      exact height
  have hy : T.point.y = φ A.y := by
    rw [← φ.apply_symm_apply T.point.y]
    exact congrArg (fun a => φ a.y) (hA : T' = ⟨A.x, A.y⟩)
  refine .of_natCard hc ?_ hB (hcofactor ▸ horder)
  rw [hcofactor]
  refine natCard_point (Nat.odd_iff.mpr R.odd) horder hA8 (fun hsquare => hdouble ?_) ?_
  · have hmapped := hsquare.map φ
    rwa [map_mul, map_sub, map_sub, map_one, map_pow, ← hy] at hmapped
  · rwa [Nat.card_congr φ.toEquiv, Nat.card_zmod]

end Te

/-! ### The curves

For each curve a point of order eight is given, and the kernel checks it. -/

namespace Curve25519

/-- A point of order eight. -/
def torsion : Te.Torsion config where
  point := .newUnchecked
    (43496726750457979451437558183816721346016168361625936758514574428539776020131 : ℕ)
    (2707385501144840649318225287225658788936804267575313519463743609750303402022 : ℕ)
  checked := by decide +kernel

theorem cofactorClears : Te.CofactorClears Curve25519Config curveConfig := by
  obtain ⟨B, hB⟩ := exists_generator
  refine Te.cofactorClears_of_map equiv ?_ inverse rfl hB ?_ ?_ ?_ map_config torsion
  · rw [p_Fr]
    exact prime_orders l (by simp)
  · rw [addOrderOf_generator hB, p_Fr]
    exact Nat.dvd_mul_left l 8
  · rw [addOrderOf_generator hB]
    exact Nat.not_dvd_of_pos_of_lt (by norm_num) (by decide +kernel)
  · rw [p_Fr]
    decide +kernel

end Curve25519

namespace Jubjub

/-- A point of order eight. -/
def torsion : Te.Torsion config where
  point := .newUnchecked
    (51487464086487745867707624970564403863932192230710361188278096157071779040579 : ℕ)
    (33175629719884006543435607313513638533300198751199617432860030069151083304669 : ℕ)
  checked := by decide +kernel

theorem cofactorClears : Te.CofactorClears JubjubConfig curveConfig := by
  obtain ⟨B, hB⟩ := exists_generator
  refine Te.cofactorClears_of_map equiv ?_ inverse rfl hB ?_ ?_ ?_ map_config torsion
  · rw [p_Fr]
    exact prime_orders l (by simp)
  · rw [addOrderOf_generator hB, p_Fr]
    exact Nat.dvd_mul_left l 8
  · rw [addOrderOf_generator hB]
    exact Nat.not_dvd_of_pos_of_lt (by norm_num) (by decide +kernel)
  · rw [p_Fr]
    decide +kernel

end Jubjub

namespace BabyJubjub

/-- A point of order eight. -/
def torsion : Te.Torsion config where
  point := .newUnchecked
    (4342719913949491028786768530115087822524712248835451589697801404893164183326 : ℕ)
    (4826523245007015323400664741523384119579596407052839571721035538011798951543 : ℕ)
  checked := by decide +kernel

theorem cofactorClears : Te.CofactorClears BabyJubjubConfig curveConfig := by
  obtain ⟨B, hB⟩ := exists_generator
  refine Te.cofactorClears_of_map equiv ?_ inverse rfl hB ?_ ?_ ?_ map_config torsion
  · rw [p_Fr]
    exact prime_orders l (by simp)
  · rw [addOrderOf_generator hB, p_Fr]
  · rw [addOrderOf_generator hB]
    exact Nat.not_dvd_of_pos_of_lt (by norm_num) (by decide +kernel)
  · rw [p_Fr]
    decide +kernel

end BabyJubjub

/-- **Clearing the cofactor** leads to the subgroup, on Curve25519, Jubjub and Baby Jubjub, from
every point of the curve. -/
theorem cofactors_clear :
    Te.CofactorClears Curve25519Config Curve25519.curveConfig ∧
    Te.CofactorClears JubjubConfig Jubjub.curveConfig ∧
    Te.CofactorClears BabyJubjubConfig BabyJubjub.curveConfig :=
  ⟨Curve25519.cofactorClears, Jubjub.cofactorClears, BabyJubjub.cofactorClears⟩

/-! ### The generators -/

/-- **The orders of the generators.** On Curve25519 and on Jubjub two scalars give the same
multiple of the generator exactly when they agree modulo the modulus of the scalar field, so every
multiple is in the subgroup of that order. On Baby Jubjub they must agree modulo eight times the
modulus, and the multiples in the subgroup are those by multiples of eight: the generator itself
is not, and its multiples are all the points of the curve. -/
theorem generator_orders :
    Te.GeneratorOrder Curve25519Config Curve25519FrParam Curve25519FrParam.p ∧
    Te.GeneratorOrder JubjubConfig JubjubFrParam JubjubFrParam.p ∧
    Te.GeneratorOrder BabyJubjubConfig BabyJubjubFrParam (8 * BabyJubjubFrParam.p) ∧
    ∀ a : Te.Affine (Fp.Element BabyJubjubFqParam), a.isOnCurve BabyJubjubConfig = true →
      ∃ scalar : List Bool, Te.Affine.ofProjective
        (BabyJubjubConfig.mulAffine BabyJubjubConfig.GENERATOR scalar) = some a := by
  obtain ⟨B, hB⟩ := Curve25519.exists_generator
  obtain ⟨B', hB'⟩ := Jubjub.exists_generator
  obtain ⟨B'', hB''⟩ := BabyJubjub.exists_generator
  refine ⟨Te.generatorOrder _ hB ?_, Te.generatorOrder _ hB' ?_, Te.generatorOrder _ hB'' ?_,
    fun a ha => ?_⟩
  · rw [Curve25519.p_Fr, Curve25519.addOrderOf_generator hB]
  · rw [Jubjub.p_Fr, Jubjub.addOrderOf_generator hB']
  · rw [BabyJubjub.p_Fr, BabyJubjub.addOrderOf_generator hB'']
  · have : Finite BabyJubjub.Fq := .of_equiv _ BabyJubjub.equiv.symm.toEquiv
    refine Te.exists_mulAffine_eq hB'' ?_ ha
    rw [BabyJubjub.addOrderOf_generator hB'', BabyJubjub.cofactorClears.natCard, BabyJubjub.p_Fr]
    rfl

end ContractsStylus
