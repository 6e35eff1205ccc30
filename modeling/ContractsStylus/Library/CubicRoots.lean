import ContractsStylus.Library.Ladder
import Mathlib.FieldTheory.Finite.Basic
import Mathlib.Tactic.LinearCombination

/-!
# Roots of cubic polynomials by computation

Whether `X³ + a X + b` has a root in a finite field of `q` elements. Every element is its own power
to `q`, so a root is one of the remainder of `X ^ q - X` too. If that has an inverse modulo the
cubic, then there is none.

## Why not try all elements

The field may be as large as those of cryptography, so that a search for a root is out of the
question, and there is no formula for roots that could be evaluated instead. But `X ^ q` modulo the
cubic is a computation of two multiplications of remainders for each binary digit of `q`, and so is
the check of an inverse that somebody else has found.

The three coefficients of a remainder are kept apart, and its product is written out. A remainder
ring as a quotient of the polynomials would be the same ring, but not one whose elements the kernel
can compute with.

## What is checked and what is trusted

Nothing is trusted. The inverse is data, and that it is one is an equation between remainders; from
there on the proof is about the value at a supposed root, at which the left side of the equation is
zero and the right side is one.

## Main definitions

* `CubicRem` — remainders modulo a cubic polynomial
* `CubicRem.powX` — powers of `X`

## Main results

* `CubicRem.eval_powX` — the value of a power at a root
* `CubicRem.no_root` — a cubic polynomial without roots
-/

namespace ContractsStylus

/-- A remainder `c₀ + c₁ X + c₂ X²` modulo a cubic polynomial. -/
structure CubicRem (F : Type) where
  c₀ : F
  c₁ : F
  c₂ : F
deriving DecidableEq

namespace CubicRem

variable {F : Type} [Field F]

def one : CubicRem F := ⟨1, 0, 0⟩

def X : CubicRem F := ⟨0, 1, 0⟩

def sub (u v : CubicRem F) : CubicRem F := ⟨u.c₀ - v.c₀, u.c₁ - v.c₁, u.c₂ - v.c₂⟩

/-- A product modulo `X³ + a X + b`. -/
def mul (a b : F) (u v : CubicRem F) : CubicRem F :=
  let d₃ := u.c₁ * v.c₂ + u.c₂ * v.c₁
  let d₄ := u.c₂ * v.c₂
  ⟨u.c₀ * v.c₀ - b * d₃, u.c₀ * v.c₁ + u.c₁ * v.c₀ - a * d₃ - b * d₄,
    u.c₀ * v.c₂ + u.c₁ * v.c₁ + u.c₂ * v.c₀ - a * d₄⟩

/-- The power of `X` with given binary digits. -/
def powX (a b : F) (bits : List Bool) : CubicRem F :=
  bits.foldl (fun u bit => if bit then mul a b (mul a b u u) X else mul a b u u) one

/-- The value at `r`. -/
def eval (r : F) (u : CubicRem F) : F := u.c₀ + u.c₁ * r + u.c₂ * r ^ 2

variable {a b r : F} {u v : CubicRem F}

@[simp] theorem eval_one : one.eval r = 1 := by simp [eval, one]

@[simp] theorem eval_X : X.eval r = r := by simp [eval, X]

@[simp] theorem eval_sub : (u.sub v).eval r = u.eval r - v.eval r := by
  simp only [eval, sub]
  ring

theorem eval_mul (hr : r ^ 3 + a * r + b = 0) : (mul a b u v).eval r = u.eval r * v.eval r := by
  simp only [eval, mul]
  linear_combination -(u.c₁ * v.c₂ + u.c₂ * v.c₁ + u.c₂ * v.c₂ * r) * hr

/-- **The value of a power** of `X` at a root is the power of the root. -/
theorem eval_powX (hr : r ^ 3 + a * r + b = 0) (bits : List Bool) :
    (powX a b bits).eval r = r ^ ofBitsBe bits := by
  refine ladder_induction (fun u n => eval r u = r ^ n) (by rw [eval_one, pow_zero]) ?_ bits
  intro u n bit hu
  have hsquare : (mul a b u u).eval r = r ^ (2 * n) := by
    rw [eval_mul hr, hu, ← pow_add, two_mul]
  cases bit with
  | true =>
    rw [if_pos rfl, eval_mul hr, hsquare, eval_X, Bool.toNat_true, pow_succ]
  | false =>
    rw [if_neg Bool.false_ne_true, hsquare, Bool.toNat_false, add_zero]

/-- **A cubic polynomial without roots**: over a field of `q` elements, when `X ^ q - X` has an
inverse modulo the polynomial. -/
theorem no_root [Fintype F] {q w : ℕ} (hq : Fintype.card F = q) (hw : q < 2 ^ w)
    (inverse : CubicRem F) (h : mul a b ((powX a b (bitsBe w q)).sub X) inverse = one) (r : F) :
    r ^ 3 + a * r + b ≠ 0 := by
  intro hr
  have hone := congrArg (eval r) h
  rw [eval_mul hr, eval_sub, eval_powX hr, ofBitsBe_bitsBe, Nat.mod_eq_of_lt hw, ← hq,
    FiniteField.pow_card, eval_X, sub_self, zero_mul, eval_one] at hone
  exact zero_ne_one hone

end CubicRem

end ContractsStylus
