import ContractsStylus.Curve.TwistedEdwards
import ContractsStylus.Library.Edwards
import ContractsStylus.Library.Ladder
import Mathlib.Algebra.Field.ZMod
import Mathlib.Tactic.NormNum.Prime

/-!
# The group law of twisted Edwards curves

The formulas compute the sum of the points on every input: when `a` is a non-zero square and `d`
is not a square, no `Z` they produce is zero.

## Completeness

The group itself is in the library, with its associativity, since Mathlib does not have it. It is a
group because no denominator vanishes, for coefficients as in `Complete`. The same fact is what the
formulas need: their `Z` is a product of such denominators.

Three formulas compute four temporaries each, in different ways. `ofSum` says what the temporaries
have to be, up to factors that are not zero, and the formulas are compared with that.

## Main definitions

* `TECurveConfig.Complete`, `TECurveConfig.curve`, `TECurveConfig.Point` — the curve, and its
  points with the group law
* `Te.Affine.Represents`, `Te.Projective.Represents` — the point that coordinates stand for

## Main results

* `Te.Projective.represents_iff` — the affine value of coordinates is the point they stand for
* `Te.Projective.Represents.ofSum` — what the three formulas have in common
* `Te.Projective.Represents.mulProjective` — scalar multiplication is that of the points
* `Te.Projective.Represents.eq_iff` — equality is that of the points
* `Te.complete_group_law` — all operations, on all representatives
-/

namespace ContractsStylus

variable {F : Type} [Field F] {P : TECurveConfig F}

namespace TECurveConfig

/-- What makes the formulas complete. -/
structure Complete (P : TECurveConfig F) : Prop where
  two_ne_zero : (2 : F) ≠ 0
  a_ne_zero : P.COEFF_A ≠ 0
  isSquare_a : IsSquare P.COEFF_A
  not_isSquare_d : ¬ IsSquare P.COEFF_D

/-- The curve `a x² + y² = 1 + d x² y²`. -/
def curve (P : TECurveConfig F) (hP : P.Complete) : Edwards F :=
  ⟨P.COEFF_A, P.COEFF_D, hP.two_ne_zero, hP.a_ne_zero, hP.isSquare_a, hP.not_isSquare_d⟩

/-- The points of the curve, which are a group. -/
abbrev Point (P : TECurveConfig F) (hP : P.Complete) : Type := (P.curve hP).Point

theorem mulByA_eq (elem : F) : P.mulByA elem = P.COEFF_A * elem := mul_comm _ _

end TECurveConfig

namespace Te

variable {hP : P.Complete}

/-! ### Representatives

The fourth coordinate is the product of the first two, up to `Z`. It is a part of what it means to
represent a point, since the formulas read it. -/

/-- The coordinates are those of a point. -/
def Affine.Represents (a : Affine F) (A : P.Point hP) : Prop := a = ⟨A.x, A.y⟩

/-- The coordinates stand for a point, whose coordinates are `X / Z` and `Y / Z`. -/
structure Projective.Represents (p : Projective F) (A : P.Point hP) : Prop where
  z_ne_zero : p.z ≠ 0
  x_mul_y : p.x * p.y = p.t * p.z
  x_eq : p.x = A.x * p.z
  y_eq : p.y = A.y * p.z

variable {A B : P.Point hP} {a : Affine F} {p q : Projective F}

theorem Projective.Represents.t_eq (h : p.Represents A) : p.t = A.x * A.y * p.z := by
  refine mul_right_cancel₀ h.z_ne_zero ?_
  rw [← h.x_mul_y, h.x_eq, h.y_eq]
  ring

theorem Projective.represents_zero : (zero : Projective F).Represents (0 : P.Point hP) :=
  ⟨one_ne_zero, by simp [zero, newUnchecked], by simp [zero, newUnchecked],
    by simp [zero, newUnchecked]⟩

theorem Affine.Represents.ofAffine (h : a.Represents A) :
    (Projective.ofAffine a).Represents A := by
  rw [show a = ⟨A.x, A.y⟩ from h]
  exact ⟨one_ne_zero, (mul_one _).symm, (mul_one _).symm, (mul_one _).symm⟩

theorem Affine.Represents.neg (h : a.Represents A) : a.neg.Represents (-A) := by
  rw [show a = ⟨A.x, A.y⟩ from h]
  exact rfl

theorem Projective.Represents.neg (h : p.Represents A) : p.neg.Represents (-A) where
  z_ne_zero := h.z_ne_zero
  x_mul_y := by
    simp only [Projective.neg]
    rw [neg_mul, neg_mul, h.x_mul_y]
  x_eq := by
    simp only [Projective.neg]
    rw [h.x_eq, Edwards.Point.neg_x, neg_mul]
  y_eq := h.y_eq

/-! ### The formulas

Each proof names the two factors that the temporaries of its formula have beyond the numerators and
denominators of the sum; the rest is an identity of polynomials. -/

/-- The temporaries `E` and `G` of a formula are the numerator and the denominator of the first
coordinate of the sum, up to a factor, and `H` and `F` are those of the second coordinate up to
another one. -/
theorem Projective.Represents.ofSum {e f g h m n : F} (hm : m ≠ 0) (hn : n ≠ 0)
    (he : e = (A.x * B.y + A.y * B.x) * m)
    (hg : g = (1 + (P.curve hP).cross A.x A.y B.x B.y) * m)
    (hh : h = (A.y * B.y - P.COEFF_A * (A.x * B.x)) * n)
    (hf : f = (1 - (P.curve hP).cross A.x A.y B.x B.y) * n) :
    (⟨e * f, g * h, e * h, f * g⟩ : Projective F).Represents (A + B) where
  z_ne_zero := by
    rw [hf, hg]
    exact mul_ne_zero (mul_ne_zero (Edwards.one_sub_cross_ne_zero A.equation B.equation) hn)
      (mul_ne_zero (Edwards.one_add_cross_ne_zero A.equation B.equation) hm)
  x_mul_y := by ring
  x_eq := by
    rw [Edwards.Point.add_x, he, hg, ← Edwards.addX_mul A.equation B.equation]
    ring
  y_eq := by
    have hy := Edwards.addY_mul A.equation B.equation
    rw [show (P.curve hP).a = P.COEFF_A from rfl] at hy
    rw [Edwards.Point.add_y, hf, hh, ← hy]
    ring

/-- **Addition adds the points**, whatever points they are. -/
theorem Projective.Represents.addAssign (hp : p.Represents A) (hq : q.Represents B) :
    (p.addAssign P q).Represents (A + B) := by
  have hz : p.z * q.z ≠ 0 := mul_ne_zero hp.z_ne_zero hq.z_ne_zero
  refine ofSum hz hz ?_ ?_ ?_ ?_
  · rw [hp.x_eq, hp.y_eq, hq.x_eq, hq.y_eq]
    ring
  · rw [hp.t_eq, hq.t_eq]
    simp only [Edwards.cross, TECurveConfig.curve]
    ring
  · rw [P.mulByA_eq, hp.x_eq, hp.y_eq, hq.x_eq, hq.y_eq]
    ring
  · rw [hp.t_eq, hq.t_eq]
    simp only [Edwards.cross, TECurveConfig.curve]
    ring

/-- The mixed formula is the general one with `Z = 1`. -/
theorem Projective.addAssignAffine_eq :
    p.addAssignAffine P a = p.addAssign P (ofAffine a) := by
  simp only [addAssignAffine, addAssign, ofAffine, newUnchecked, mul_one, mul_assoc]

theorem Projective.Represents.addAssignAffine (hp : p.Represents A) (ha : a.Represents B) :
    (p.addAssignAffine P a).Represents (A + B) := by
  rw [Projective.addAssignAffine_eq]
  exact hp.addAssign ha.ofAffine

/-- **Doubling doubles the point.** On the curve `a x² + y²` is the denominator of the sum. -/
theorem Projective.Represents.doubleInPlace (h : p.Represents A) :
    (p.doubleInPlace P).Represents (A + A) := by
  have heq := A.equation
  simp only [Edwards.Equation, TECurveConfig.curve] at heq
  have hz : p.z ^ 2 ≠ 0 := pow_ne_zero 2 h.z_ne_zero
  refine ofSum hz (neg_ne_zero.mpr hz) ?_ ?_ ?_ ?_ <;>
    simp only [P.mulByA_eq, square_eq, double_eq, h.x_eq, h.y_eq, Edwards.cross,
      TECurveConfig.curve]
  · ring
  · linear_combination p.z ^ 2 * heq
  · ring
  · linear_combination p.z ^ 2 * heq

theorem Projective.Represents.subAssign (hp : p.Represents A) (hq : q.Represents B) :
    (p.subAssign P q).Represents (A - B) := by
  rw [sub_eq_add_neg]
  exact hp.addAssign hq.neg

theorem Projective.Represents.subAssignAffine (hp : p.Represents A) (ha : a.Represents B) :
    (p.subAssignAffine P a).Represents (A - B) := by
  rw [sub_eq_add_neg]
  exact hp.addAssignAffine ha.neg

/-! ### Scalar multiplication -/

/-- **Scalar multiplication** by any bits, with any leading zeros. -/
theorem Projective.Represents.mulProjective (hp : p.Represents A) (scalar : List Bool) :
    (P.mulProjective p scalar).Represents (ofBitsBe scalar • A) :=
  ladder_nsmul represents_zero (fun _ _ hr => hr.doubleInPlace) (fun _ _ hr => hr.addAssign hp)
    scalar

theorem Affine.Represents.mulAffine (ha : a.Represents A) (scalar : List Bool) :
    (P.mulAffine a scalar).Represents (ofBitsBe scalar • A) :=
  ladder_nsmul Projective.represents_zero (fun _ _ hr => hr.doubleInPlace)
    (fun _ _ hr => hr.addAssignAffine ha) scalar

/-! ### Checks and conversions -/

variable [DecidableEq F]

/-- **What is on the curve is a point of it**, and the other way round. -/
theorem Affine.isOnCurve_iff :
    a.isOnCurve P = true ↔ ∃ A : P.Point hP, a.Represents A := by
  have hcurve : a.isOnCurve P = true ↔ (P.curve hP).Equation a.x a.y := by
    simp only [isOnCurve, decide_eq_true_iff, Edwards.Equation, TECurveConfig.curve, P.mulByA_eq,
      square_eq, mul_pow, add_comm]
  rw [hcurve]
  constructor
  · intro h
    exact ⟨⟨a.x, a.y, h⟩, rfl⟩
  · rintro ⟨A, hA⟩
    rw [show a = ⟨A.x, A.y⟩ from hA]
    exact A.equation

theorem Affine.isZero_iff : a.isZero = true ↔ a.Represents (0 : P.Point hP) := by
  rw [isZero, Bool.and_eq_true, decide_eq_true_iff, decide_eq_true_iff, Represents, Affine.ext_iff]
  rfl

/-- **The check for the identity** finds it in every representation. -/
theorem Projective.Represents.isZero_iff (h : p.Represents A) : p.isZero = true ↔ A = 0 := by
  simp only [isZero, Bool.and_eq_true, Bool.not_eq_true', decide_eq_true_iff,
    decide_eq_false_iff_not]
  constructor
  · rintro ⟨⟨⟨hx, hy⟩, -⟩, -⟩
    refine Edwards.Point.ext ?_ ?_
    · exact (mul_eq_zero.mp (h.x_eq.symm.trans hx)).resolve_right h.z_ne_zero
    · exact (mul_eq_right₀ h.z_ne_zero).mp (h.y_eq.symm.trans hy)
  · rintro rfl
    have hy : p.y = p.z := h.y_eq.trans (one_mul _)
    refine ⟨⟨⟨?_, hy⟩, ?_⟩, ?_⟩
    · exact h.x_eq.trans (zero_mul _)
    · rw [hy]
      exact h.z_ne_zero
    · rw [h.t_eq]
      simp

/-- The conversion to affine coordinates, with a division. -/
theorem Affine.ofProjective_eq (hz : p.z ≠ 0) :
    Affine.ofProjective p = some ⟨p.x / p.z, p.y / p.z⟩ := by
  rw [ofProjective]
  split
  · rename_i hzero
    simp only [Projective.isZero, Bool.and_eq_true, decide_eq_true_iff] at hzero
    obtain ⟨⟨⟨hx, hy⟩, -⟩, -⟩ := hzero
    rw [hx, hy, zero_div, div_self hz, zero]
  · split
    · rename_i hone
      rw [hone, div_one, div_one, newUnchecked]
    · rw [div_eq_mul_inv, div_eq_mul_inv]
      rfl

theorem Affine.ofProjective_eq_none (hz : p.z = 0) : Affine.ofProjective p = none := by
  have hzero : p.isZero = false := by
    rw [Projective.isZero, hz]
    cases hy : decide (p.y = 0) <;> simp
  rw [ofProjective, hzero, hz]
  simp

/-- **The affine value** of a representative is the point. -/
theorem Projective.represents_iff :
    p.Represents A ↔ p.x * p.y = p.t * p.z ∧ Affine.ofProjective p = some ⟨A.x, A.y⟩ := by
  by_cases hz : p.z = 0
  · rw [Affine.ofProjective_eq_none hz]
    exact iff_of_false (fun h => h.z_ne_zero hz) (by simp)
  · rw [Affine.ofProjective_eq hz, Option.some_inj, Affine.mk.injEq, div_eq_iff hz, div_eq_iff hz]
    constructor
    · intro h
      exact ⟨h.x_mul_y, h.x_eq, h.y_eq⟩
    · rintro ⟨hxy, hx, hy⟩
      exact ⟨hz, hxy, hx, hy⟩

/-- **Equality is that of the points.** -/
theorem Projective.Represents.eq_iff (hp : p.Represents A) (hq : q.Represents B) :
    p.eq q = true ↔ A = B := by
  rw [Projective.eq]
  by_cases hA : A = 0
  · rw [if_pos (hp.isZero_iff.mpr hA), hq.isZero_iff, hA, eq_comm]
  rw [if_neg fun hzero => hA (hp.isZero_iff.mp hzero)]
  by_cases hB : B = 0
  · rw [if_pos (hq.isZero_iff.mpr hB), hB]
    simp [hA]
  rw [if_neg fun hzero => hB (hq.isZero_iff.mp hzero), Bool.and_eq_true, decide_eq_true_iff,
    decide_eq_true_iff, Edwards.Point.ext_iff]
  have hz : p.z * q.z ≠ 0 := mul_ne_zero hp.z_ne_zero hq.z_ne_zero
  have hscaled : ∀ u v : F, u * p.z * q.z = v * q.z * p.z ↔ u = v := by
    intro u v
    rw [mul_assoc, mul_assoc, mul_comm q.z]
    exact mul_left_inj' hz
  rw [hp.x_eq, hq.x_eq, hp.y_eq, hq.y_eq, hscaled, hscaled]

/-- **The operations are those of the group of points.** On any representatives of two points the
sums, the differences, the double and the negation represent what the Edwards law gives, and
equality is that of the points. To represent a point is to have it as affine value, and the affine
coordinates that pass the checks are those of the points and of the identity. -/
theorem complete_group_law {A B : P.Point hP} {p q : Projective F} {a : Affine F}
    (hp : p.Represents A) (hq : q.Represents B) (ha : a.Represents B) :
    (p.addAssign P q).Represents (A + B) ∧ (p.addAssignAffine P a).Represents (A + B) ∧
    (p.doubleInPlace P).Represents (A + A) ∧ p.neg.Represents (-A) ∧
    (p.subAssign P q).Represents (A - B) ∧ (p.subAssignAffine P a).Represents (A - B) ∧
    (p.eq q = true ↔ A = B) ∧ (p.isZero = true ↔ A = 0) ∧
    (Projective.zero : Projective F).Represents (0 : P.Point hP) ∧
    (∀ (r : Projective F) (C : P.Point hP), r.Represents C ↔
      r.x * r.y = r.t * r.z ∧ Affine.ofProjective r = some ⟨C.x, C.y⟩) ∧
    ∀ b : Affine F, (b.isOnCurve P = true ↔ ∃ C : P.Point hP, b.Represents C) ∧
      (b.isZero = true ↔ b.Represents (0 : P.Point hP)) :=
  ⟨hp.addAssign hq, hp.addAssignAffine ha, hp.doubleInPlace, hp.neg, hp.subAssign hq,
    hp.subAssignAffine ha, hp.eq_iff hq, hp.isZero_iff, Projective.represents_zero,
    fun _ _ => Projective.represents_iff, fun _ => ⟨Affine.isOnCurve_iff, Affine.isZero_iff⟩⟩

end Te

/-! ### Isomorphic fields

A curve can be computed with in any field that is isomorphic to its own. -/

section Map

variable {G : Type} [Field G] (φ : F ≃+* G)

def Te.Affine.map (a : Te.Affine F) : Te.Affine G := ⟨φ a.x, φ a.y⟩

def Te.Projective.map (p : Te.Projective F) : Te.Projective G := ⟨φ p.x, φ p.y, φ p.t, φ p.z⟩

/-- The same curve over another field. -/
def TECurveConfig.map (P : TECurveConfig F) : TECurveConfig G :=
  ⟨φ P.COEFF_A, φ P.COEFF_D, P.GENERATOR.map φ⟩

theorem TECurveConfig.Complete.of_map (h : (P.map φ).Complete) : P.Complete where
  two_ne_zero := by
    rw [← map_ne_zero_iff φ φ.injective, map_ofNat]
    exact h.two_ne_zero
  a_ne_zero := (map_ne_zero_iff φ φ.injective).mp h.a_ne_zero
  isSquare_a := by
    have hsquare := h.isSquare_a.map φ.symm
    rwa [show (P.map φ).COEFF_A = φ P.COEFF_A from rfl, φ.symm_apply_apply] at hsquare
  not_isSquare_d := fun hsquare => h.not_isSquare_d (hsquare.map φ)

namespace Te

variable (p q : Projective F) (a : Affine F)

theorem Projective.map_zero : (zero : Projective F).map φ = zero := by
  simp [map, zero, newUnchecked]

theorem Projective.map_doubleInPlace :
    (p.doubleInPlace P).map φ = (p.map φ).doubleInPlace (P.map φ) := by
  simp [map, doubleInPlace, TECurveConfig.map, TECurveConfig.mulByA, square, double]

theorem Projective.map_addAssign :
    (p.addAssign P q).map φ = (p.map φ).addAssign (P.map φ) (q.map φ) := by
  simp [map, addAssign, TECurveConfig.map, TECurveConfig.mulByA]

theorem Projective.map_mulProjective (scalar : List Bool) :
    (P.mulProjective p scalar).map φ = (P.map φ).mulProjective (p.map φ) scalar := by
  rw [TECurveConfig.mulProjective, TECurveConfig.mulProjective, ← map_zero φ]
  generalize (zero : Projective F) = r
  induction bitBeTrimmedIter scalar generalizing r with
  | nil => rfl
  | cons b bits ih =>
    rw [List.foldl_cons, List.foldl_cons, ih]
    cases b <;> simp [map_doubleInPlace, map_addAssign]

theorem Affine.map_generator : P.GENERATOR.map φ = (P.map φ).GENERATOR := rfl

theorem Projective.map_ofAffine : (ofAffine a).map φ = ofAffine (a.map φ) := by
  simp [map, ofAffine, newUnchecked, Affine.map]

theorem Projective.map_generator : (generator P).map φ = generator (P.map φ) :=
  map_ofAffine φ P.GENERATOR

variable [DecidableEq F] [DecidableEq G]

theorem Projective.isZero_map : (p.map φ).isZero = p.isZero := by
  simp [isZero, map]

theorem Affine.isOnCurve_map : (a.map φ).isOnCurve (P.map φ) = a.isOnCurve P := by
  rw [isOnCurve, isOnCurve, decide_eq_decide]
  simp only [Affine.map, TECurveConfig.map, TECurveConfig.mulByA, square, ← map_mul, ← map_add,
    ← map_one φ, φ.injective.eq_iff]

end Te

end Map

namespace Te

instance factPrimeThirteen : Fact (Nat.Prime 13) := ⟨by norm_num⟩

/-- Over the integers modulo `13` with `a = 1` and `d = 2`, and with representatives of `(4, 4)`
and `(1, 0)`. -/
theorem complete_group_law_thirteen : ∃ (hP : (⟨1, 2, ⟨4, 4⟩⟩ : TECurveConfig (ZMod 13)).Complete)
    (A B : TECurveConfig.Point _ hP),
    (⟨8, 8, 6, 2⟩ : Projective (ZMod 13)).Represents A ∧
    (⟨3, 0, 0, 3⟩ : Projective (ZMod 13)).Represents B ∧
    (Projective.addAssign ⟨1, 2, ⟨4, 4⟩⟩ ⟨8, 8, 6, 2⟩ ⟨3, 0, 0, 3⟩).Represents (A + B) := by
  have hP : (⟨1, 2, ⟨4, 4⟩⟩ : TECurveConfig (ZMod 13)).Complete := by
    refine ⟨by decide, by decide, ⟨1, (one_mul 1).symm⟩, ?_⟩
    rintro ⟨r, hr⟩
    exact (by decide : ∀ r : ZMod 13, 2 ≠ r * r) r hr
  have hA : (TECurveConfig.curve _ hP).Equation 4 4 :=
    show (1 * 4 ^ 2 + 4 ^ 2 : ZMod 13) = 1 + 2 * (4 * 4) ^ 2 by decide
  have hB : (TECurveConfig.curve _ hP).Equation 1 0 :=
    show (1 * 1 ^ 2 + 0 ^ 2 : ZMod 13) = 1 + 2 * (1 * 0) ^ 2 by decide
  have hp : (⟨8, 8, 6, 2⟩ : Projective (ZMod 13)).Represents
      (⟨4, 4, hA⟩ : TECurveConfig.Point _ hP) :=
    ⟨by decide, by decide, show (8 : ZMod 13) = 4 * 2 by decide,
      show (8 : ZMod 13) = 4 * 2 by decide⟩
  have hq : (⟨3, 0, 0, 3⟩ : Projective (ZMod 13)).Represents
      (⟨1, 0, hB⟩ : TECurveConfig.Point _ hP) :=
    ⟨by decide, by decide, show (3 : ZMod 13) = 1 * 3 by decide,
      show (0 : ZMod 13) = 0 * 3 by decide⟩
  obtain ⟨hadd, -⟩ := complete_group_law hp hq (a := ⟨1, 0⟩) rfl
  exact ⟨hP, _, _, hp, hq, hadd⟩

end Te

end ContractsStylus
