import Mathlib.Algebra.Field.Basic
import Mathlib.Algebra.Group.Even
import Mathlib.Tactic.FieldSimp
import Mathlib.Tactic.LinearCombination
import Mathlib.Tactic.Ring

/-!
# Complete twisted Edwards curves

The curve `a x² + y² = 1 + d x² y²` over a field in which `2` is not zero, where `a` is a
non-zero square and `d` is not a square. Under these conditions the sum of two points is given by
one formula whose denominators never vanish, and the points are a commutative group.

## Completeness

With a square root `s` of `a`, a denominator that vanishes would make a non-square the quotient of
two squares: `(s x₁ ± ε y₁)²` would be `d` times a square for `ε = ±1`. It is the reason why there
is no case distinction anywhere in what follows: not for doubling, not for opposite points, not for
the neutral element.

So the coefficients come with these facts, as fields of `Edwards`, and a point is two coordinates
with their equation. A curve whose formula has exceptions cannot be built.

## Associativity

A sum of three points has four nested denominators. Instead of dividing, both bracketings are
brought to the form `triple / (denom ± cross)` with polynomials in the six coordinates, and the
identity that remains is one in the ideal of the three equations of the curve. The coefficients of
its certificate are large, and are checked by `linear_combination`; nobody has to understand them.

## Doubles

A point that is twice another one satisfies a condition on its second coordinate alone, which can be
tested with a power: `Edwards.Point.isSquare_of_double`. Where it fails, the point is not a double.

## Main definitions

* `Edwards` — the coefficients of a curve, with what makes its formula complete
* `Edwards.Point` — the points of the curve
* `Edwards.addX`, `Edwards.addY` — the sum

## Main results

* `Edwards.eq_or_eq_neg_of_equation` — one coordinate nearly determines the other one
* `Edwards.one_add_cross_ne_zero`, `Edwards.one_sub_cross_ne_zero` — no denominator vanishes
* `Edwards.equation_add` — the sum is on the curve
* `Edwards.addX_assoc`, `Edwards.addY_assoc` — the sum is associative
* `Edwards.Point.instAddCommGroup` — the points are a group
* `Edwards.Point.isSquare_of_double` — what a double satisfies
-/

namespace ContractsStylus

/-- The coefficients of a curve `a x² + y² = 1 + d x² y²` whose addition is complete. -/
structure Edwards (F : Type) [Field F] where
  a : F
  d : F
  two_ne_zero : (2 : F) ≠ 0
  a_ne_zero : a ≠ 0
  isSquare_a : IsSquare a
  not_isSquare_d : ¬ IsSquare d

namespace Edwards

variable {F : Type} [Field F] (E : Edwards F)

/-- The equation of the curve. -/
def Equation (x y : F) : Prop := E.a * x ^ 2 + y ^ 2 = 1 + E.d * (x * y) ^ 2

/-- The product by which the denominators of a sum differ from one. -/
def cross (x₁ y₁ x₂ y₂ : F) : F := E.d * (x₁ * y₁) * (x₂ * y₂)

/-- The first coordinate of a sum. -/
def addX (x₁ y₁ x₂ y₂ : F) : F := (x₁ * y₂ + y₁ * x₂) / (1 + E.cross x₁ y₁ x₂ y₂)

/-- The second coordinate of a sum. -/
def addY (x₁ y₁ x₂ y₂ : F) : F := (y₁ * y₂ - E.a * (x₁ * x₂)) / (1 - E.cross x₁ y₁ x₂ y₂)

variable {E} {x₁ y₁ x₂ y₂ x₃ y₃ : F}

/-! ### Completeness

The argument is made once for both signs of the denominator. -/

/-- A non-square times a square is a square only when both are zero. -/
theorem eq_zero_of_d_mul_sq {m n : F} (h : n ^ 2 = E.d * m ^ 2) : m = 0 := by
  by_contra hm
  refine E.not_isSquare_d ⟨n / m, ?_⟩
  rw [← pow_two, div_pow, h, mul_div_cancel_right₀ _ (pow_ne_zero 2 hm)]

/-- **The first coordinate of a point is determined by the second one**, up to its sign. -/
theorem eq_or_eq_neg_of_equation {y : F} (h₁ : E.Equation x₁ y) (h₂ : E.Equation x₂ y) :
    x₁ = x₂ ∨ x₁ = -x₂ := by
  have hne : E.a - E.d * y ^ 2 ≠ 0 := by
    intro hzero
    obtain ⟨s, hs⟩ := E.isSquare_a
    have hy : y = 0 := eq_zero_of_d_mul_sq (n := s) (by linear_combination hzero - hs)
    rw [hy] at hzero
    exact E.a_ne_zero (by linear_combination hzero)
  have hsq : (E.a - E.d * y ^ 2) * (x₁ ^ 2 - x₂ ^ 2) = 0 := by
    rw [Equation] at h₁ h₂
    linear_combination h₁ - h₂
  exact sq_eq_sq_iff_eq_or_eq_neg.mp (sub_eq_zero.mp ((mul_eq_zero.mp hsq).resolve_left hne))

/-- With a square root `s` of `a`, a product `ε = ±1` would make `(s x₁ ± ε y₁)²` a non-square
times a square. -/
theorem cross_sq_ne_one (h₁ : E.Equation x₁ y₁) (h₂ : E.Equation x₂ y₂) :
    E.cross x₁ y₁ x₂ y₂ ^ 2 ≠ 1 := by
  intro hone
  obtain ⟨s, hs⟩ := E.isSquare_a
  have hs0 : s ≠ 0 := by
    rintro rfl
    exact E.a_ne_zero (by rw [hs, mul_zero])
  rw [Equation, hs] at h₁ h₂
  have hu : x₁ * y₁ ≠ 0 := by
    intro hzero
    rw [cross, hzero] at hone
    simp at hone
  have hplus : (s * x₁ + E.cross x₁ y₁ x₂ y₂ * y₁) ^ 2 =
      E.d * (x₁ * y₁ * (s * x₂ + y₂)) ^ 2 := by
    rw [cross] at hone ⊢
    linear_combination h₁ - E.d * (x₁ * y₁) ^ 2 * h₂ + (y₁ ^ 2 - 1) * hone
  have hminus : (s * x₁ - E.cross x₁ y₁ x₂ y₂ * y₁) ^ 2 =
      E.d * (x₁ * y₁ * (s * x₂ - y₂)) ^ 2 := by
    rw [cross] at hone ⊢
    linear_combination h₁ - E.d * (x₁ * y₁) ^ 2 * h₂ + (y₁ ^ 2 - 1) * hone
  have hp := (mul_eq_zero.mp (eq_zero_of_d_mul_sq hplus)).resolve_left hu
  have hm := (mul_eq_zero.mp (eq_zero_of_d_mul_sq hminus)).resolve_left hu
  have hx : x₂ = 0 := by
    have htwo : 2 * s * x₂ = 0 := by linear_combination hp + hm
    exact (mul_eq_zero.mp htwo).resolve_left (mul_ne_zero E.two_ne_zero hs0)
  rw [cross, hx] at hone
  simp at hone

theorem one_add_cross_ne_zero (h₁ : E.Equation x₁ y₁) (h₂ : E.Equation x₂ y₂) :
    1 + E.cross x₁ y₁ x₂ y₂ ≠ 0 := by
  intro h
  refine cross_sq_ne_one h₁ h₂ ?_
  linear_combination (E.cross x₁ y₁ x₂ y₂ - 1) * h

theorem one_sub_cross_ne_zero (h₁ : E.Equation x₁ y₁) (h₂ : E.Equation x₂ y₂) :
    1 - E.cross x₁ y₁ x₂ y₂ ≠ 0 := by
  intro h
  refine cross_sq_ne_one h₁ h₂ ?_
  linear_combination -(E.cross x₁ y₁ x₂ y₂ + 1) * h

/-! ### The sum

Both coordinates are used through their products with the denominators. -/

theorem addX_mul (h₁ : E.Equation x₁ y₁) (h₂ : E.Equation x₂ y₂) :
    E.addX x₁ y₁ x₂ y₂ * (1 + E.cross x₁ y₁ x₂ y₂) = x₁ * y₂ + y₁ * x₂ :=
  div_mul_cancel₀ _ (one_add_cross_ne_zero h₁ h₂)

theorem addY_mul (h₁ : E.Equation x₁ y₁) (h₂ : E.Equation x₂ y₂) :
    E.addY x₁ y₁ x₂ y₂ * (1 - E.cross x₁ y₁ x₂ y₂) = y₁ * y₂ - E.a * (x₁ * x₂) :=
  div_mul_cancel₀ _ (one_sub_cross_ne_zero h₁ h₂)

/-- **The sum of two points is on the curve.** -/
theorem equation_add (h₁ : E.Equation x₁ y₁) (h₂ : E.Equation x₂ y₂) :
    E.Equation (E.addX x₁ y₁ x₂ y₂) (E.addY x₁ y₁ x₂ y₂) := by
  have hp := one_add_cross_ne_zero h₁ h₂
  have hm := one_sub_cross_ne_zero h₁ h₂
  rw [Equation, addX, addY]
  field_simp
  rw [Equation] at h₁ h₂
  rw [cross]
  linear_combination
    ((1 + (E.d * (x₁ * y₁) * (x₂ * y₂)) ^ 2) * (E.a * x₂ ^ 2 + y₂ ^ 2) -
      E.d * (x₂ * y₂) ^ 2 * (E.a * x₁ ^ 2 + y₁ ^ 2 + 1 + E.d * (x₁ * y₁) ^ 2)) * h₁ +
    ((1 + (E.d * (x₁ * y₁) * (x₂ * y₂)) ^ 2) * (1 + E.d * (x₁ * y₁) ^ 2) -
      E.d * (x₁ * y₁) ^ 2 * (E.a * x₂ ^ 2 + y₂ ^ 2 + 1 + E.d * (x₂ * y₂) ^ 2)) * h₂

/-! ### Associativity

A sum of three points, with its denominators cleared. -/

theorem addX_comm : E.addX x₁ y₁ x₂ y₂ = E.addX x₂ y₂ x₁ y₁ := by
  rw [addX, addX, cross, cross]
  ring

theorem addY_comm : E.addY x₁ y₁ x₂ y₂ = E.addY x₂ y₂ x₁ y₁ := by
  rw [addY, addY, cross, cross]
  ring

variable (E) in
/-- The numerator of the first coordinate of a sum of three points. -/
def tripleX (x₁ y₁ x₂ y₂ x₃ y₃ : F) : F :=
  (x₁ * y₂ + y₁ * x₂) * (1 - E.cross x₁ y₁ x₂ y₂) * y₃ +
    (y₁ * y₂ - E.a * (x₁ * x₂)) * (1 + E.cross x₁ y₁ x₂ y₂) * x₃

variable (E) in
/-- The numerator of the second coordinate of a sum of three points. -/
def tripleY (x₁ y₁ x₂ y₂ x₃ y₃ : F) : F :=
  (y₁ * y₂ - E.a * (x₁ * x₂)) * (1 + E.cross x₁ y₁ x₂ y₂) * y₃ -
    E.a * ((x₁ * y₂ + y₁ * x₂) * (1 - E.cross x₁ y₁ x₂ y₂) * x₃)

variable (E) in
/-- The product of the denominators of a sum of two points. -/
def denom (x₁ y₁ x₂ y₂ : F) : F := (1 + E.cross x₁ y₁ x₂ y₂) * (1 - E.cross x₁ y₁ x₂ y₂)

variable (E) in
/-- The `cross` of a sum of two points and a third one, times `denom`. -/
def tripleCross (x₁ y₁ x₂ y₂ x₃ y₃ : F) : F :=
  E.d * ((x₁ * y₂ + y₁ * x₂) * (y₁ * y₂ - E.a * (x₁ * x₂))) * (x₃ * y₃)

theorem cross_add_mul (h₁ : E.Equation x₁ y₁) (h₂ : E.Equation x₂ y₂) :
    E.cross (E.addX x₁ y₁ x₂ y₂) (E.addY x₁ y₁ x₂ y₂) x₃ y₃ * E.denom x₁ y₁ x₂ y₂ =
      E.tripleCross x₁ y₁ x₂ y₂ x₃ y₃ := by
  rw [tripleCross, ← addX_mul h₁ h₂, ← addY_mul h₁ h₂, denom]
  rw [show E.cross (E.addX x₁ y₁ x₂ y₂) (E.addY x₁ y₁ x₂ y₂) x₃ y₃ =
    E.d * (E.addX x₁ y₁ x₂ y₂ * E.addY x₁ y₁ x₂ y₂) * (x₃ * y₃) from rfl]
  ring

theorem denom_ne_zero (h₁ : E.Equation x₁ y₁) (h₂ : E.Equation x₂ y₂) :
    E.denom x₁ y₁ x₂ y₂ ≠ 0 :=
  mul_ne_zero (one_add_cross_ne_zero h₁ h₂) (one_sub_cross_ne_zero h₁ h₂)

theorem addX_add (h₁ : E.Equation x₁ y₁) (h₂ : E.Equation x₂ y₂) :
    E.addX (E.addX x₁ y₁ x₂ y₂) (E.addY x₁ y₁ x₂ y₂) x₃ y₃ =
      E.tripleX x₁ y₁ x₂ y₂ x₃ y₃ /
        (E.denom x₁ y₁ x₂ y₂ + E.tripleCross x₁ y₁ x₂ y₂ x₃ y₃) := by
  rw [addX, ← mul_div_mul_right _ _ (denom_ne_zero h₁ h₂), add_mul 1, one_mul,
    cross_add_mul h₁ h₂, tripleX, ← addX_mul h₁ h₂, ← addY_mul h₁ h₂, denom]
  congr 1
  ring

theorem addY_add (h₁ : E.Equation x₁ y₁) (h₂ : E.Equation x₂ y₂) :
    E.addY (E.addX x₁ y₁ x₂ y₂) (E.addY x₁ y₁ x₂ y₂) x₃ y₃ =
      E.tripleY x₁ y₁ x₂ y₂ x₃ y₃ /
        (E.denom x₁ y₁ x₂ y₂ - E.tripleCross x₁ y₁ x₂ y₂ x₃ y₃) := by
  rw [addY, ← mul_div_mul_right _ _ (denom_ne_zero h₁ h₂), sub_mul 1, one_mul,
    cross_add_mul h₁ h₂, tripleY, ← addX_mul h₁ h₂, ← addY_mul h₁ h₂, denom]
  congr 1
  ring

theorem denom_add_tripleCross_ne_zero (h₁ : E.Equation x₁ y₁) (h₂ : E.Equation x₂ y₂)
    (h₃ : E.Equation x₃ y₃) :
    E.denom x₁ y₁ x₂ y₂ + E.tripleCross x₁ y₁ x₂ y₂ x₃ y₃ ≠ 0 := by
  rw [← cross_add_mul h₁ h₂, ← one_add_mul]
  exact mul_ne_zero (one_add_cross_ne_zero (equation_add h₁ h₂) h₃) (denom_ne_zero h₁ h₂)

theorem denom_sub_tripleCross_ne_zero (h₁ : E.Equation x₁ y₁) (h₂ : E.Equation x₂ y₂)
    (h₃ : E.Equation x₃ y₃) :
    E.denom x₁ y₁ x₂ y₂ - E.tripleCross x₁ y₁ x₂ y₂ x₃ y₃ ≠ 0 := by
  rw [← cross_add_mul h₁ h₂, ← one_sub_mul]
  exact mul_ne_zero (one_sub_cross_ne_zero (equation_add h₁ h₂) h₃) (denom_ne_zero h₁ h₂)

/-- Both bracketings of a sum are over denominators that do not vanish, and what remains is an
identity in the ideal of the three equations. -/
theorem addX_assoc (h₁ : E.Equation x₁ y₁) (h₂ : E.Equation x₂ y₂) (h₃ : E.Equation x₃ y₃) :
    E.addX (E.addX x₁ y₁ x₂ y₂) (E.addY x₁ y₁ x₂ y₂) x₃ y₃ =
      E.addX x₁ y₁ (E.addX x₂ y₂ x₃ y₃) (E.addY x₂ y₂ x₃ y₃) := by
  rw [addX_add h₁ h₂, addX_comm, addX_add h₂ h₃,
    div_eq_div_iff (denom_add_tripleCross_ne_zero h₁ h₂ h₃)
      (denom_add_tripleCross_ne_zero h₂ h₃ h₁)]
  simp only [Equation, tripleX, tripleCross, denom, cross] at *
  grind

theorem addY_assoc (h₁ : E.Equation x₁ y₁) (h₂ : E.Equation x₂ y₂) (h₃ : E.Equation x₃ y₃) :
    E.addY (E.addX x₁ y₁ x₂ y₂) (E.addY x₁ y₁ x₂ y₂) x₃ y₃ =
      E.addY x₁ y₁ (E.addX x₂ y₂ x₃ y₃) (E.addY x₂ y₂ x₃ y₃) := by
  rw [addY_add h₁ h₂, addY_comm, addY_add h₂ h₃,
    div_eq_div_iff (denom_sub_tripleCross_ne_zero h₁ h₂ h₃)
      (denom_sub_tripleCross_ne_zero h₂ h₃ h₁)]
  simp only [Equation, tripleY, tripleCross, denom, cross] at *
  grind

/-! ### The group

Points are extended by coordinates, so every law is a pair of identities between coordinates, and
associativity is a pair of the equations above. -/

variable (E) in
/-- A point of the curve. -/
@[ext] structure Point where
  x : F
  y : F
  equation : E.Equation x y

namespace Point

instance instZero : Zero E.Point where
  zero := ⟨0, 1, by simp [Equation]⟩

instance instNeg : Neg E.Point where
  neg p := ⟨-p.x, p.y, by simpa [Equation] using p.equation⟩

instance instAdd : Add E.Point where
  add p q := ⟨E.addX p.x p.y q.x q.y, E.addY p.x p.y q.x q.y, equation_add p.equation q.equation⟩

@[simp] theorem zero_x : (0 : E.Point).x = 0 := rfl

@[simp] theorem zero_y : (0 : E.Point).y = 1 := rfl

@[simp] theorem neg_x (p : E.Point) : (-p).x = -p.x := rfl

@[simp] theorem neg_y (p : E.Point) : (-p).y = p.y := rfl

theorem add_x (p q : E.Point) : (p + q).x = E.addX p.x p.y q.x q.y := rfl

theorem add_y (p q : E.Point) : (p + q).y = E.addY p.x p.y q.x q.y := rfl

protected theorem add_comm (p q : E.Point) : p + q = q + p := Point.ext addX_comm addY_comm

protected theorem zero_add (p : E.Point) : 0 + p = p := by
  refine Point.ext ?_ ?_
  · simp [add_x, addX, cross]
  · simp [add_y, addY, cross]

protected theorem neg_add_cancel (p : E.Point) : -p + p = 0 := by
  refine Point.ext ?_ ?_
  · rw [add_x, addX, neg_x, neg_y, zero_x, show -p.x * p.y + p.y * p.x = 0 by ring, zero_div]
  · rw [add_y, addY, zero_y, div_eq_one_iff_eq (one_sub_cross_ne_zero (-p).equation p.equation)]
    have h := p.equation
    simp only [Equation, cross, neg_x, neg_y] at h ⊢
    linear_combination h

/-- **The points of a complete curve are a commutative group.** -/
instance instAddCommGroup : AddCommGroup E.Point where
  add_assoc p q r := Point.ext (addX_assoc p.equation q.equation r.equation)
    (addY_assoc p.equation q.equation r.equation)
  zero_add := Point.zero_add
  add_zero p := (Point.add_comm p 0).trans (Point.zero_add p)
  neg_add_cancel := Point.neg_add_cancel
  add_comm := Point.add_comm
  nsmul := nsmulRec
  zsmul := zsmulRec

/-! ### Doubles

Only the second coordinate of the double is looked at, since the first one is determined by it up to
a sign. -/

variable {p q : E.Point}

/-- The second coordinate determines a point up to its sign. -/
theorem eq_or_eq_neg_of_y_eq (h : p.y = q.y) : p = q ∨ p = -q := by
  have hq := q.equation
  rw [← h] at hq
  rcases eq_or_eq_neg_of_equation p.equation hq with hx | hx
  · exact Or.inl (Point.ext hx h)
  · exact Or.inr (Point.ext hx h)

/-- There is at most one point of order two. -/
theorem eq_of_two_nsmul_eq_zero (hp : 2 • p = 0) (hq : 2 • q = 0) (hp0 : p ≠ 0) (hq0 : q ≠ 0) :
    p = q := by
  have hcoords : ∀ r : E.Point, 2 • r = 0 → r ≠ 0 → r.x = 0 ∧ r.y = -1 := by
    intro r hr hr0
    rw [two_nsmul, add_eq_zero_iff_eq_neg] at hr
    have hx : r.x = 0 := by
      have hneg : 2 * r.x = 0 := by
        linear_combination congrArg Point.x hr + neg_x r
      exact (mul_eq_zero.mp hneg).resolve_left E.two_ne_zero
    have hy := r.equation
    rw [Equation, hx] at hy
    rcases mul_self_eq_one_iff.mp (show r.y * r.y = 1 by linear_combination hy) with hy | hy
    · exact absurd (Point.ext hx hy) hr0
    · exact ⟨hx, hy⟩
  obtain ⟨hpx, hpy⟩ := hcoords p hp hp0
  obtain ⟨hqx, hqy⟩ := hcoords q hq hq0
  exact Point.ext (hpx.trans hqx.symm) (hpy.trans hqy.symm)

/-- **What a double satisfies.** -/
theorem isSquare_of_double (p : E.Point) : IsSquare ((1 - (p + p).y ^ 2) * (E.a - E.d)) := by
  have hne := one_sub_cross_ne_zero p.equation p.equation
  have hy := addY_mul p.equation p.equation
  have heq := p.equation
  rw [← add_y] at hy
  rw [Equation] at heq
  refine ⟨2 * (E.a - E.d) * (p.x * p.y) / (1 - E.cross p.x p.y p.x p.y), ?_⟩
  rw [div_mul_div_comm, eq_div_iff (mul_ne_zero hne hne)]
  rw [cross] at hy ⊢
  linear_combination -(E.a - E.d) * ((p + p).y * (1 - E.d * (p.x * p.y) * (p.x * p.y)) +
    (p.y * p.y - E.a * (p.x * p.x))) * hy - (E.a - E.d) *
    (E.a * p.x ^ 2 + p.y ^ 2 + 1 + E.d * (p.x * p.y) ^ 2) * heq

end Point

end Edwards

end ContractsStylus
