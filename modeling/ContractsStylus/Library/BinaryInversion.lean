import Mathlib.Algebra.Ring.Basic
import Mathlib.Data.Nat.Cast.Basic
import Mathlib.Data.Nat.GCD.Basic
import Mathlib.Tactic.LinearCombination

/-!
# Inversion by halving and subtracting

The extended Euclidean algorithm on two coprime numbers that are halved while they are even and
subtracted from each other otherwise. A cofactor is kept with each number: the cofactor times the
element to invert is the number, up to a constant factor. Halving a number halves its cofactor,
which needs two to be cancelled.

## Why cofactors and not a greatest common divisor

The usual extended algorithm keeps both cofactors of both numbers and reads off the inverse from
Bézout's identity. A binary one keeps one cofactor for each number, in the ring itself, and what
connects them is an equation between elements: `b * a = s * u`. It says nothing about division with
remainder, so that both moves are a line of algebra, and any order of them may be followed.

The factor `s` is there for representations that carry a constant along, such as Montgomery form.
When a number has become one, its cofactor is the inverse times `s`, and the caller is free to have
begun with the `s` that it wants to end with.

## Termination

Nothing here says how the moves follow each other. A loop makes the larger number smaller with
every subtraction as long as the two are not equal, and `Cofactors.ne_of_halved` is what excludes
that: coprime numbers are equal only when both are one, and then one of them was so before the
halving, at which point a loop has stopped.

## Main definitions

* `Cofactors` — two coprime numbers with their cofactors

## Main results

* `Cofactors.halve`, `Cofactors.sub` — the two moves
* `Cofactors.ne_of_halved` — numbers that were halved until they are odd are not equal, unless one
  of them has reached one before
-/

namespace ContractsStylus

variable {R : Type} [CommRing R] {a s b c : R} {u v k l : ℕ}

/-- Coprime `u` and `v` are `a` times their cofactors `b` and `c`, up to the factor `s`. -/
structure Cofactors (a s : R) (u v : ℕ) (b c : R) : Prop where
  left_eq : b * a = s * u
  right_eq : c * a = s * v
  coprime : Nat.Coprime u v
  left_pos : 0 < u
  right_pos : 0 < v

namespace Cofactors

theorem symm (h : Cofactors a s u v b c) : Cofactors a s v u c b :=
  ⟨h.right_eq, h.left_eq, h.coprime.symm, h.right_pos, h.left_pos⟩

/-- **Halving**, any number of times. -/
theorem halve (htwo : IsUnit (2 : R)) (h : Cofactors a s (2 ^ k * u) v (2 ^ k * b) c) :
    Cofactors a s u v b c where
  left_eq := by
    refine (htwo.pow k).mul_left_cancel ?_
    have hleft := h.left_eq
    push_cast at hleft
    linear_combination hleft
  right_eq := h.right_eq
  coprime := h.coprime.coprime_dvd_left (Dvd.intro_left _ rfl)
  left_pos := Nat.pos_of_mul_pos_left h.left_pos
  right_pos := h.right_pos

/-- **Subtracting** the smaller number. -/
theorem sub (h : Cofactors a s u v b c) (hlt : v < u) : Cofactors a s (u - v) v (b - c) c where
  left_eq := by
    rw [Nat.cast_sub hlt.le, sub_mul, h.left_eq, h.right_eq, mul_sub]
  right_eq := h.right_eq
  coprime := (Nat.coprime_sub_self_left hlt.le).mpr h.coprime
  left_pos := Nat.sub_pos_of_lt hlt
  right_pos := h.right_pos

/-- Two numbers do not become equal by halving, when neither is one. -/
theorem ne_of_halved (h : Cofactors a s (2 ^ k * u) (2 ^ l * v) b c) (hu : 2 ^ k * u ≠ 1)
    (hv : 2 ^ l * v ≠ 1) : u ≠ v := by
  rintro rfl
  have hone : u = 1 := Nat.eq_one_of_dvd_coprimes h.coprime (Dvd.intro_left _ rfl)
    (Dvd.intro_left _ rfl)
  subst hone
  have hk : 0 < k := Nat.pos_of_ne_zero fun hk => hu (by rw [hk, pow_zero, mul_one])
  have hl : 0 < l := Nat.pos_of_ne_zero fun hl => hv (by rw [hl, pow_zero, mul_one])
  have hcoprime := h.coprime
  rw [mul_one, mul_one, Nat.coprime_pow_left_iff hk, Nat.coprime_pow_right_iff hl] at hcoprime
  exact absurd hcoprime (by decide)

end Cofactors

end ContractsStylus
