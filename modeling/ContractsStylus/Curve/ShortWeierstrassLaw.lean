import ContractsStylus.Curve.ShortWeierstrass
import Mathlib.AlgebraicGeometry.EllipticCurve.Affine.Point
import Mathlib.Tactic.LinearCombination

/-!
# The group law of short Weierstrass curves

The formulas compute the chord-and-tangent law. The law is that of the points of a Weierstrass
curve; what it is compared with are the points that affine and Jacobian coordinates represent.

## The reference

Mathlib has the group of points of a Weierstrass curve, with its associativity. So a formula is
shown to compute the addition of that group, case by case as Mathlib defines it: equal points,
opposite points, points with different first coordinates. Each case is one identity of polynomials,
after the denominators are cleared.

## Representatives

Jacobian coordinates stand for a point at infinity if `Z` is zero, whatever the others are, and else
for the point `X / Z²`, `Y / Z³`. `Represents` says this without a division. The laws are about all
representatives, so they cover what earlier operations leave, and the operands may be the same.

## Main definitions

* `SWCurveConfig.curve`, `SWCurveConfig.Point` — the curve, and its points with the group law
* `Sw.Affine.Represents`, `Sw.Projective.Represents` — the point that coordinates stand for

## Main results

* `Sw.Projective.represents_iff` — the affine value of coordinates is the point they stand for
* `Sw.Projective.Represents.doubleInPlace`, `Sw.Projective.Represents.addAssign`,
  `Sw.Projective.Represents.addAssignAffine` — one theorem for each formula
* `Sw.Projective.Represents.eq_iff` — equality is that of the points
* `Sw.group_law` — all operations, on all representatives
* `Sw.Projective.map_doubleAndAddAffine` — a multiplication can be computed in an isomorphic field
-/

namespace ContractsStylus

variable {F : Type} [Field F] {P : SWCurveConfig F}

namespace SWCurveConfig

/-- The curve `y² = x³ + a x + b`. -/
def curve (P : SWCurveConfig F) : WeierstrassCurve.Affine F := ⟨0, 0, 0, P.COEFF_A, P.COEFF_B⟩

/-- The points of the curve, which are a group. -/
abbrev Point (P : SWCurveConfig F) : Type := P.curve.Point

/-- The curve is not singular, over a field in which `2` is not zero. -/
structure Elliptic (P : SWCurveConfig F) : Prop where
  two_ne_zero : (2 : F) ≠ 0
  disc_ne_zero : 4 * P.COEFF_A ^ 3 + 27 * P.COEFF_B ^ 2 ≠ 0

theorem equation_iff {x y : F} :
    P.curve.Equation x y ↔ y ^ 2 = x ^ 3 + P.COEFF_A * x + P.COEFF_B := by
  simp [WeierstrassCurve.Affine.equation_iff, curve]

theorem Elliptic.nonsingular_iff (h : P.Elliptic) {x y : F} :
    P.curve.Nonsingular x y ↔ y ^ 2 = x ^ 3 + P.COEFF_A * x + P.COEFF_B := by
  have hdisc : P.curve.Δ ≠ 0 := by
    have hΔ : P.curve.Δ = -2 ^ 4 * (4 * P.COEFF_A ^ 3 + 27 * P.COEFF_B ^ 2) := by
      simp only [WeierstrassCurve.Δ, WeierstrassCurve.b₂, WeierstrassCurve.b₄,
        WeierstrassCurve.b₆, WeierstrassCurve.b₈, curve]
      ring
    rw [hΔ]
    exact mul_ne_zero (neg_ne_zero.mpr (pow_ne_zero 4 h.two_ne_zero)) h.disc_ne_zero
  rw [← WeierstrassCurve.Affine.equation_iff_nonsingular_of_Δ_ne_zero hdisc, equation_iff]

@[simp] theorem negY_eq (x y : F) : P.curve.negY x y = -y := by
  simp [WeierstrassCurve.Affine.negY, curve]

theorem addX_eq (x₁ x₂ ℓ : F) : P.curve.addX x₁ x₂ ℓ = ℓ ^ 2 - x₁ - x₂ := by
  simp [WeierstrassCurve.Affine.addX, curve]

theorem addY_eq (x₁ x₂ y₁ ℓ : F) :
    P.curve.addY x₁ x₂ y₁ ℓ = -(ℓ * (ℓ ^ 2 - x₁ - x₂ - x₁) + y₁) := by
  rw [WeierstrassCurve.Affine.addY, negY_eq, WeierstrassCurve.Affine.negAddY, addX_eq]

section Coefficients

variable [DecidableEq F]

theorem mulByA_eq (elem : F) : P.mulByA elem = P.COEFF_A * elem := by
  rw [mulByA]
  split
  · rename_i ha
    rw [ha, zero_mul]
  · exact mul_comm _ _

theorem addB_eq (elem : F) : P.addB elem = elem + P.COEFF_B := by
  rw [addB]
  split
  · rename_i hb
    rw [hb, add_zero]
  · rfl

end Coefficients

end SWCurveConfig

namespace Sw

/-! ### Representatives

A point at infinity has many representatives, and so has any other point in Jacobian coordinates; an
affine value has one for each point but infinity, whose coordinates nobody reads. -/

/-- The coordinates are those of a point. -/
def Affine.Represents (a : Affine F) : P.Point → Prop
  | .zero => a.infinity = true
  | .some x y _ => a.infinity = false ∧ a.x = x ∧ a.y = y

/-- The coordinates stand for a point: at infinity `Z` is zero, and elsewhere `X` and `Y` are
the coordinates times powers of `Z`. -/
def Projective.Represents (p : Projective F) : P.Point → Prop
  | .zero => p.z = 0
  | .some x y _ => p.z ≠ 0 ∧ p.x = x * p.z ^ 2 ∧ p.y = y * p.z ^ 3

variable {A B : P.Point} {a : Affine F} {p q : Projective F}

theorem Projective.represents_zero_iff : p.Represents (0 : P.Point) ↔ p.z = 0 := Iff.rfl

theorem Projective.represents_zero : (zero : Projective F).Represents (0 : P.Point) := rfl

theorem Affine.Represents.ofAffine (h : a.Represents A) :
    (Projective.ofAffine a).Represents A := by
  rw [Projective.ofAffine, Affine.xy]
  cases A with
  | zero =>
    rw [(h : a.infinity = true)]
    exact rfl
  | some x y hxy =>
    obtain ⟨hinf, rfl, rfl⟩ := h
    rw [hinf]
    exact ⟨one_ne_zero, by simp, by simp⟩

theorem Projective.Represents.neg (h : p.Represents A) : p.neg.Represents (-A) := by
  cases A with
  | zero => exact h
  | some x y hxy =>
    obtain ⟨hz, hx, hy⟩ := h
    rw [WeierstrassCurve.Affine.Point.neg_some]
    refine ⟨hz, hx, ?_⟩
    rw [Projective.neg, P.negY_eq, hy, neg_mul]

theorem Affine.Represents.neg (h : a.Represents A) : a.neg.Represents (-A) := by
  cases A with
  | zero => exact h
  | some x y hxy =>
    obtain ⟨hinf, rfl, rfl⟩ := h
    rw [WeierstrassCurve.Affine.Point.neg_some]
    exact ⟨hinf, rfl, (P.negY_eq ..).symm⟩

/-- Two representatives agree in a coordinate, each scaled with the other's `Z`, when the points
do. -/
theorem scaled_eq_iff {x x' z z' : F} (hz : z ≠ 0) (hz' : z' ≠ 0) (n : ℕ) :
    x * z ^ n * z' ^ n = x' * z' ^ n * z ^ n ↔ x = x' := by
  rw [mul_assoc, mul_assoc, mul_comm (z' ^ n)]
  exact mul_left_inj' (mul_ne_zero (pow_ne_zero n hz) (pow_ne_zero n hz'))

/-! ### Checks and conversions

Two representatives are compared without a division, each coordinate scaled with the `Z` of the
other one. Infinity is recognized by `Z` alone. -/

variable [DecidableEq F]

theorem Projective.isZero_iff : p.isZero = true ↔ p.z = 0 := decide_eq_true_iff

/-- A point that is represented with `Z ≠ 0` is not at infinity. -/
theorem Projective.Represents.isZero_iff (h : p.Represents A) : p.isZero = true ↔ A = 0 := by
  rw [Projective.isZero_iff]
  cases A with
  | zero => exact iff_of_true h rfl
  | some x y hxy => exact iff_of_false h.1 (WeierstrassCurve.Affine.Point.some_ne_zero hxy)

/-- **What is on the curve is a point of it**, and the other way round. -/
theorem Affine.isOnCurve_iff (hP : P.Elliptic) :
    a.isOnCurve P = true ↔ ∃ A : P.Point, a.Represents A := by
  have hright : (if P.COEFF_A ≠ 0 then P.addB (square a.x * a.x) + P.mulByA a.x
      else P.addB (square a.x * a.x)) = a.x ^ 3 + P.COEFF_A * a.x + P.COEFF_B := by
    rw [P.addB_eq, P.mulByA_eq, square]
    split
    · ring
    · rename_i ha
      rw [not_not.mp ha]
      ring
  rw [isOnCurve]
  cases hinf : a.infinity with
  | true => exact iff_of_true rfl ⟨0, hinf⟩
  | false =>
    simp only [hright, Bool.false_eq_true, if_false, decide_eq_true_iff]
    rw [square, ← pow_two, ← hP.nonsingular_iff]
    constructor
    · exact fun h => ⟨.some a.x a.y h, hinf, rfl, rfl⟩
    · rintro ⟨A, hA⟩
      cases A with
      | zero => exact absurd (hinf.symm.trans hA) Bool.false_ne_true
      | some x y h =>
        obtain ⟨-, rfl, rfl⟩ := hA
        exact h

/-- **The affine value** of a representative is the point. -/
theorem Projective.represents_iff :
    p.Represents A ↔ (Affine.ofProjective p).Represents A := by
  rw [Affine.ofProjective]
  by_cases hz : p.z = 0
  · rw [if_pos (Projective.isZero_iff.mpr hz)]
    cases A with
    | zero => exact iff_of_true hz rfl
    | some x y hxy => exact iff_of_false (fun h => h.1 hz) fun h => Bool.false_ne_true h.1.symm
  · rw [if_neg fun hzero => hz (Projective.isZero_iff.mp hzero)]
    have hvalue : (if p.z = 1 then Affine.newUnchecked p.x p.y
        else Affine.newUnchecked (p.x * square p.z⁻¹) (p.y * square p.z⁻¹ * p.z⁻¹)) =
        Affine.newUnchecked (p.x / p.z ^ 2) (p.y / p.z ^ 3) := by
      split
      · rename_i hone
        simp only [hone, one_pow, div_one]
      · rw [square_eq, mul_assoc, ← pow_succ, inv_pow, inv_pow, div_eq_mul_inv, div_eq_mul_inv]
    simp only [hvalue]
    cases A with
    | zero => exact iff_of_false hz Bool.false_ne_true
    | some x y hxy =>
      have hx : p.x / p.z ^ 2 = x ↔ p.x = x * p.z ^ 2 := div_eq_iff (pow_ne_zero 2 hz)
      have hy : p.y / p.z ^ 3 = y ↔ p.y = y * p.z ^ 3 := div_eq_iff (pow_ne_zero 3 hz)
      constructor
      · rintro ⟨-, hpx, hpy⟩
        exact ⟨rfl, hx.mpr hpx, hy.mpr hpy⟩
      · rintro ⟨-, hpx, hpy⟩
        exact ⟨hz, hx.mp hpx, hy.mp hpy⟩

/-- **Equality is that of the points.** -/
theorem Projective.Represents.eq_iff (hp : p.Represents A) (hq : q.Represents B) :
    p.eq q = true ↔ A = B := by
  rw [Projective.eq]
  cases A with
  | zero =>
    rw [if_pos (Projective.isZero_iff.mpr hp), hq.isZero_iff, eq_comm]
    rfl
  | some x y h =>
    obtain ⟨hz, hx, hy⟩ := hp
    rw [if_neg fun hzero => hz (Projective.isZero_iff.mp hzero)]
    cases B with
    | zero =>
      rw [if_pos (Projective.isZero_iff.mpr hq)]
      simp
    | some x' y' h' =>
      obtain ⟨hz', hx', hy'⟩ := hq
      rw [if_neg fun hzero => hz' (Projective.isZero_iff.mp hzero)]
      have hxx : p.x * square q.z = q.x * square p.z ↔ x = x' := by
        rw [hx, hx', square_eq, square_eq, scaled_eq_iff hz hz']
      have hyy : p.y * (square q.z * q.z) = q.y * (square p.z * p.z) ↔ y = y' := by
        rw [hy, hy', square_eq, square_eq, ← pow_succ, ← pow_succ, scaled_eq_iff hz hz']
      simp only [hxx, hyy]
      by_cases heq : x = x' <;> simp [heq]

/-! ### Doubling

There is a formula for curves with `a = 0` and one for all others. They are the same as polynomials,
so the second is enough, and a point of order two needs no case of its own: its `Y` is zero and so
is the `Z` of the result. -/

/-- Both formulas for doubling, as polynomials. -/
theorem Projective.doubleInPlace_eq (hz : p.z ≠ 0) :
    p.doubleInPlace P =
      let m := 3 * p.x ^ 2 + P.COEFF_A * p.z ^ 4
      let s := 4 * p.x * p.y ^ 2
      ⟨m ^ 2 - 2 * s, (s - (m ^ 2 - 2 * s)) * m - 8 * p.y ^ 4, 2 * p.z * p.y⟩ := by
  rw [doubleInPlace, if_neg fun hzero => hz (Projective.isZero_iff.mp hzero)]
  simp only [double_eq, square_eq, P.mulByA_eq]
  split
  · rename_i ha
    have hd : (if P.extensionDegree ∈ [1, 2] then 2 * (2 * (p.x * p.y ^ 2))
        else 2 * ((p.x + p.y ^ 2) ^ 2 - p.x ^ 2 - (p.y ^ 2) ^ 2)) = 4 * p.x * p.y ^ 2 := by
      split <;> ring
    simp only [hd, ha, mk.injEq]
    refine ⟨?_, ?_, ?_⟩ <;> ring
  · simp only [mk.injEq]
    refine ⟨?_, ?_, ?_⟩ <;> ring

/-- **Doubling doubles the point**, points of order two and infinity included. -/
theorem Projective.Represents.doubleInPlace (hP : P.Elliptic) (h : p.Represents A) :
    (p.doubleInPlace P).Represents (A + A) := by
  cases A with
  | zero =>
    rw [Projective.doubleInPlace, if_pos (Projective.isZero_iff.mpr h)]
    exact h
  | some x y hxy =>
    obtain ⟨hz, hx, hy⟩ := h
    rw [Projective.doubleInPlace_eq hz]
    by_cases hzero : y = 0
    · have hneg : y = P.curve.negY x y := by rw [P.negY_eq, hzero, neg_zero]
      rw [WeierstrassCurve.Affine.Point.add_self_of_Y_eq hneg]
      refine Projective.represents_zero_iff.mpr ?_
      simp only [hy, hzero, zero_mul, mul_zero]
    · have htwo : 2 * y ≠ 0 := mul_ne_zero hP.two_ne_zero hzero
      have hneg : y ≠ P.curve.negY x y := by
        rw [P.negY_eq]
        intro heq
        exact htwo (by linear_combination heq)
      rw [WeierstrassCurve.Affine.Point.add_self_of_Y_ne hneg]
      -- the slope of the tangent, and with it the coefficient
      have hslope : P.curve.slope x x y y * (2 * y) = 3 * x ^ 2 + P.COEFF_A := by
        rw [WeierstrassCurve.Affine.slope_of_Y_ne rfl hneg, P.negY_eq, sub_neg_eq_add, ← two_mul,
          div_mul_cancel₀ _ htwo]
        simp [SWCurveConfig.curve]
      have ha : P.COEFF_A = P.curve.slope x x y y * (2 * y) - 3 * x ^ 2 := by
        rw [hslope]
        ring
      refine ⟨?_, ?_, ?_⟩
      · simp only [hy]
        rw [show 2 * p.z * (y * p.z ^ 3) = 2 * y * p.z ^ 4 by ring]
        exact mul_ne_zero htwo (pow_ne_zero 4 hz)
      · rw [P.addX_eq]
        simp only [hx, hy, ha]
        ring
      · rw [P.addY_eq]
        simp only [hx, hy, ha]
        ring

/-! ### Addition

Points at the same coordinate are doubled if they are equal and give infinity if they are opposite;
all others go through the general formula. The mixed addition and the subtractions are instances. -/

/-- The general formula, for two points at different coordinates. -/
theorem Projective.addAssign_eq (hp : p.z ≠ 0) (hq : q.z ≠ 0)
    (hne : p.x * q.z ^ 2 ≠ q.x * p.z ^ 2) :
    p.addAssign P q =
      let h := q.x * p.z ^ 2 - p.x * q.z ^ 2
      let r := 2 * (q.y * p.z ^ 3 - p.y * q.z ^ 3)
      let v := p.x * q.z ^ 2 * (2 * h) ^ 2
      let x := r ^ 2 - h * (2 * h) ^ 2 - 2 * v
      ⟨x, r * (v - x) - 2 * (p.y * q.z ^ 3) * (h * (2 * h) ^ 2), 2 * (p.z * q.z) * h⟩ := by
  rw [addAssign, if_neg fun hzero => hp (Projective.isZero_iff.mp hzero),
    if_neg fun hzero => hq (Projective.isZero_iff.mp hzero)]
  simp only [double_eq, square_eq, sumOfProducts_two, if_neg hne, mk.injEq]
  refine ⟨?_, ?_, trivial⟩ <;> ring

/-- What is done with two points at the same coordinate. -/
theorem Projective.addAssign_of_eq (hp : p.z ≠ 0) (hq : q.z ≠ 0)
    (heq : p.x * q.z ^ 2 = q.x * p.z ^ 2) :
    p.addAssign P q =
      if p.y * q.z ^ 3 = q.y * p.z ^ 3 then p.doubleInPlace P else zero := by
  rw [addAssign, if_neg fun hzero => hp (Projective.isZero_iff.mp hzero),
    if_neg fun hzero => hq (Projective.isZero_iff.mp hzero)]
  simp only [square_eq, heq, if_true, mul_assoc, ← pow_succ']

/-- **Addition adds the points**, whatever points they are. -/
theorem Projective.Represents.addAssign (hP : P.Elliptic) (hp : p.Represents A)
    (hq : q.Represents B) : (p.addAssign P q).Represents (A + B) := by
  cases A with
  | zero =>
    rw [Projective.addAssign, if_pos (Projective.isZero_iff.mpr hp)]
    exact hq
  | some x y hxy =>
    obtain ⟨hz, hx, hy⟩ := hp
    cases B with
    | zero =>
      rw [Projective.addAssign, if_neg fun hzero => hz (Projective.isZero_iff.mp hzero),
        if_pos (Projective.isZero_iff.mpr hq)]
      exact ⟨hz, hx, hy⟩
    | some x' y' hxy' =>
      obtain ⟨hz', hx', hy'⟩ := hq
      have hu : p.x * q.z ^ 2 = q.x * p.z ^ 2 ↔ x = x' := by rw [hx, hx', scaled_eq_iff hz hz']
      by_cases hxx : x = x'
      · have hv : p.y * q.z ^ 3 = q.y * p.z ^ 3 ↔ y = y' := by rw [hy, hy', scaled_eq_iff hz hz']
        rw [Projective.addAssign_of_eq hz hz' (hu.mpr hxx)]
        subst hxx
        by_cases hyy : y = y'
        · subst hyy
          rw [if_pos (hv.mpr rfl)]
          have hrep : p.Represents (WeierstrassCurve.Affine.Point.some x y hxy : P.Point) :=
            ⟨hz, hx, hy⟩
          exact hrep.doubleInPlace hP
        · have hneg := (WeierstrassCurve.Affine.Y_eq_of_X_eq hxy.1 hxy'.1 rfl).resolve_left hyy
          rw [if_neg fun heq => hyy (hv.mp heq), WeierstrassCurve.Affine.Point.add_of_Y_eq rfl hneg]
          exact Projective.represents_zero
      · have hsub : x - x' ≠ 0 := sub_ne_zero.mpr hxx
        rw [Projective.addAssign_eq hz hz' fun heq => hxx (hu.mp heq),
          WeierstrassCurve.Affine.Point.add_of_X_ne hxx]
        -- the slope of the chord
        have hslope : y' = y - P.curve.slope x x' y y' * (x - x') := by
          rw [WeierstrassCurve.Affine.slope_of_X_ne hxx, div_mul_cancel₀ _ hsub]
          ring
        refine ⟨?_, ?_, ?_⟩
        · simp only [hx, hx']
          rw [show 2 * (p.z * q.z) * (x' * q.z ^ 2 * p.z ^ 2 - x * p.z ^ 2 * q.z ^ 2) =
            -(2 * (x - x') * (p.z * q.z) ^ 3) by ring]
          exact neg_ne_zero.mpr (mul_ne_zero (mul_ne_zero hP.two_ne_zero hsub)
            (pow_ne_zero 3 (mul_ne_zero hz hz')))
        · rw [P.addX_eq]
          generalize P.curve.slope x x' y y' = ℓ at hslope ⊢
          simp only [hx, hx', hy, hy', hslope]
          ring
        · rw [P.addY_eq]
          generalize P.curve.slope x x' y y' = ℓ at hslope ⊢
          simp only [hx, hx', hy, hy', hslope]
          ring

/-- The mixed formula is the general one with `Z = 1`. -/
theorem Projective.addAssignAffine_eq (ha : a.infinity = false) :
    p.addAssignAffine P a = p.addAssign P (ofAffine a) := by
  have hxy : a.xy = some (a.x, a.y) := by rw [Affine.xy, ha]; rfl
  have hone : ¬(⟨a.x, a.y, 1⟩ : Projective F).isZero = true := by
    rw [Projective.isZero_iff]
    exact one_ne_zero
  rw [addAssignAffine, addAssign, ofAffine, hxy]
  simp only [hone, double_eq, square_eq, sumOfProducts_two]
  split
  · rfl
  · simp only [one_pow, mul_one, Bool.false_eq_true, if_false, mul_comm p.z a.y]
    refine ite_congr rfl (fun _ => rfl) fun _ => ?_
    rw [mk.injEq]
    refine ⟨?_, ?_, ?_⟩ <;> ring

theorem Projective.Represents.addAssignAffine (hP : P.Elliptic) (hp : p.Represents A)
    (ha : a.Represents B) : (p.addAssignAffine P a).Represents (A + B) := by
  cases hinf : a.infinity with
  | true =>
    have hB : B = 0 := by
      cases B with
      | zero => rfl
      | some x y hxy => exact absurd (hinf.symm.trans ha.1) Bool.false_ne_true.symm
    rw [hB, add_zero, Projective.addAssignAffine, Affine.xy, hinf]
    exact hp
  | false =>
    rw [Projective.addAssignAffine_eq hinf]
    exact hp.addAssign hP ha.ofAffine

theorem Projective.Represents.subAssign (hP : P.Elliptic) (hp : p.Represents A)
    (hq : q.Represents B) : (p.subAssign P q).Represents (A - B) := by
  rw [sub_eq_add_neg]
  exact hp.addAssign hP hq.neg

theorem Projective.Represents.subAssignAffine (hP : P.Elliptic) (hp : p.Represents A)
    (ha : a.Represents B) : (p.subAssignAffine P a).Represents (A - B) := by
  rw [sub_eq_add_neg]
  exact hp.addAssignAffine hP ha.neg

/-- **The operations are those of the group of points.** On any representatives of two points the
sums, the differences, the double and the negation represent what the chord-and-tangent law gives,
and equality is that of the points. To represent a point is to have it as affine value, and the
affine coordinates that pass the check are those of the points. -/
theorem group_law (hP : P.Elliptic) {A B : P.Point} {p q : Projective F} {a : Affine F}
    (hp : p.Represents A) (hq : q.Represents B) (ha : a.Represents B) :
    (p.addAssign P q).Represents (A + B) ∧ (p.addAssignAffine P a).Represents (A + B) ∧
    (p.doubleInPlace P).Represents (A + A) ∧ p.neg.Represents (-A) ∧
    (p.subAssign P q).Represents (A - B) ∧ (p.subAssignAffine P a).Represents (A - B) ∧
    (p.eq q = true ↔ A = B) ∧
    (∀ (r : Projective F) (C : P.Point),
      r.Represents C ↔ (Affine.ofProjective r).Represents C) ∧
    ∀ b : Affine F, b.isOnCurve P = true ↔ ∃ C : P.Point, b.Represents C :=
  ⟨hp.addAssign hP hq, hp.addAssignAffine hP ha, hp.doubleInPlace hP, hp.neg,
    hp.subAssign hP hq, hp.subAssignAffine hP ha, hp.eq_iff hq,
    fun _ _ => Projective.represents_iff, fun _ => Affine.isOnCurve_iff hP⟩

/-- On `y² = x³ + 1`, with representatives of `(2, 3)` and `(0, 1)`. -/
theorem group_law_two : ∃ A B : (⟨0, 1, 1⟩ : SWCurveConfig ℚ).Point,
    (⟨8, 24, 2⟩ : Projective ℚ).Represents A ∧ (⟨0, 27, 3⟩ : Projective ℚ).Represents B ∧
    (Projective.addAssign ⟨0, 1, 1⟩ ⟨8, 24, 2⟩ ⟨0, 27, 3⟩).Represents (A + B) := by
  have hP : (⟨0, 1, 1⟩ : SWCurveConfig ℚ).Elliptic := ⟨by norm_num, by norm_num⟩
  have hA : (⟨0, 1, 1⟩ : SWCurveConfig ℚ).curve.Nonsingular 2 3 :=
    hP.nonsingular_iff.mpr (by norm_num)
  have hB : (⟨0, 1, 1⟩ : SWCurveConfig ℚ).curve.Nonsingular 0 1 :=
    hP.nonsingular_iff.mpr (by norm_num)
  have hp : (⟨8, 24, 2⟩ : Projective ℚ).Represents (.some 2 3 hA : SWCurveConfig.Point _) :=
    ⟨by norm_num, by norm_num, by norm_num⟩
  have hq : (⟨0, 27, 3⟩ : Projective ℚ).Represents (.some 0 1 hB : SWCurveConfig.Point _) :=
    ⟨by norm_num, by norm_num, by norm_num⟩
  have ha : (⟨0, 1, false⟩ : Affine ℚ).Represents (.some 0 1 hB : SWCurveConfig.Point _) :=
    ⟨rfl, rfl, rfl⟩
  obtain ⟨hadd, -⟩ := group_law hP hp hq ha
  exact ⟨_, _, hp, hq, hadd⟩

end Sw

/-! ### Isomorphic fields

A curve can be computed with in any field that is isomorphic to its own. -/

section Map

variable {G : Type} [Field G] (φ : F ≃+* G)

def Sw.Affine.map (a : Sw.Affine F) : Sw.Affine G := ⟨φ a.x, φ a.y, a.infinity⟩

def Sw.Projective.map (p : Sw.Projective F) : Sw.Projective G := ⟨φ p.x, φ p.y, φ p.z⟩

/-- The same curve over another field. -/
def SWCurveConfig.map (P : SWCurveConfig F) : SWCurveConfig G :=
  ⟨φ P.COEFF_A, φ P.COEFF_B, P.extensionDegree⟩

theorem SWCurveConfig.Elliptic.of_map (h : (P.map φ).Elliptic) : P.Elliptic where
  two_ne_zero := by
    rw [← map_ne_zero_iff φ φ.injective, map_ofNat]
    exact h.two_ne_zero
  disc_ne_zero := by
    rw [← map_ne_zero_iff φ φ.injective, map_add, map_mul, map_mul, map_pow, map_pow, map_ofNat,
      map_ofNat]
    exact h.disc_ne_zero

theorem map_square (x : F) : φ (square x) = square (φ x) := map_mul φ x x

theorem map_double (x : F) : φ (double x) = double (φ x) := map_add φ x x

namespace Sw

theorem Projective.map_zero : (zero : Projective F).map φ = zero := by
  simp [map, zero]

theorem map_coeffA_eq_zero : (P.map φ).COEFF_A = 0 ↔ P.COEFF_A = 0 :=
  map_eq_zero_iff φ φ.injective

variable [DecidableEq F] [DecidableEq G] (p : Projective F) (a : Affine F)

theorem map_mulByA (x : F) : φ (P.mulByA x) = (P.map φ).mulByA (φ x) := by
  rw [P.mulByA_eq, (P.map φ).mulByA_eq, map_mul]
  rfl

theorem Projective.isZero_map : (p.map φ).isZero = p.isZero := by
  simp [isZero, map]

theorem Projective.map_doubleInPlace :
    (p.doubleInPlace P).map φ = (p.map φ).doubleInPlace (P.map φ) := by
  have hmk : ∀ x y z, (⟨x, y, z⟩ : Projective F).map φ = ⟨φ x, φ y, φ z⟩ := fun _ _ _ => rfl
  rw [doubleInPlace, doubleInPlace, isZero_map]
  simp only [map_coeffA_eq_zero, apply_ite (Projective.map φ), hmk, map_add, map_sub, map_mul,
    map_square, map_double, map_mulByA, apply_ite φ]
  rfl

theorem Projective.map_addAssignAffine :
    (p.addAssignAffine P a).map φ = (p.map φ).addAssignAffine (P.map φ) (a.map φ) := by
  rw [addAssignAffine, addAssignAffine, Affine.xy, Affine.xy, Affine.map]
  cases a.infinity with
  | true => rfl
  | false =>
    have hx : (p.map φ).x = φ a.x * square (p.map φ).z ↔ p.x = a.x * square p.z := by
      rw [← φ.injective.eq_iff, map_mul, map_square]
      rfl
    have hy : (p.map φ).y = (p.map φ).z * φ a.y * square (p.map φ).z ↔
        p.y = p.z * a.y * square p.z := by
      rw [← φ.injective.eq_iff, map_mul, map_mul, map_square]
      rfl
    simp only [Bool.not_false, if_true]
    rw [isZero_map, apply_ite (map φ)]
    refine ite_congr rfl (fun _ => ?_) fun _ => ?_
    · rw [map, map_one]
    rw [apply_ite (map φ)]
    refine ite_congr (propext hx.symm) (fun _ => ?_) fun _ => ?_
    · rw [apply_ite (map φ)]
      exact ite_congr (propext hy.symm) (fun _ => map_doubleInPlace φ p) fun _ => map_zero φ
    · simp only [map, sumOfProducts_two, map_add, map_sub, map_mul, map_neg, map_square,
        map_double]

theorem Projective.map_doubleAndAddAffine (scalar : List Bool) :
    (swDoubleAndAddAffine P a scalar).map φ =
      swDoubleAndAddAffine (P.map φ) (a.map φ) scalar := by
  rw [swDoubleAndAddAffine, swDoubleAndAddAffine, ← map_zero φ]
  generalize (zero : Projective F) = r
  induction bitBeTrimmedIter scalar generalizing r with
  | nil => rfl
  | cons b bits ih =>
    rw [List.foldl_cons, List.foldl_cons, ih]
    cases b <;> simp [map_doubleInPlace, map_addAssignAffine]

theorem Affine.isOnCurve_map : (a.map φ).isOnCurve (P.map φ) = a.isOnCurve P := by
  rw [isOnCurve, isOnCurve]
  refine ite_congr rfl (fun _ => rfl) fun _ => ?_
  rw [decide_eq_decide]
  refine Iff.trans ?_ φ.injective.eq_iff
  simp only [P.addB_eq, P.mulByA_eq, (P.map φ).addB_eq, (P.map φ).mulByA_eq, ne_eq,
    map_coeffA_eq_zero, apply_ite φ, map_add, map_mul, map_square]
  rfl

end Sw

end Map
end ContractsStylus
