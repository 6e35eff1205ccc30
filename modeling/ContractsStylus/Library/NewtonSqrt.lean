import Mathlib.Analysis.Real.Sqrt
import Mathlib.Data.Nat.Cast.Order.Field
import Mathlib.Tactic.FieldSimp

/-!
# Newton's iteration for integer square roots

The step `x ↦ (x + a / x) / 2` with integer divisions. It never falls below the rounded root, and
its distance to the real root shrinks quadratically until it is less than one. From then on an
iterate is the rounded root or the number after it.

## Why real numbers

That the iteration works is a statement about its distance to the root, which is not an integer. The
precision is therefore measured in real numbers: `Near` says that the iterate is at most `p / c`
too large, and a step replaces `c` by `2 c²`. A few such replacements bring `c` above any `p` of a
given size, and this is the only thing that a caller computes.

The other disjunct of `Near` is what makes the induction go through. Once an iterate is the rounded
root or the next number, integer division may throw it from one of them to the other, and the
distance to the real root no longer becomes smaller; but it does not leave these two.

## The last correction

Of the two candidates the right one is told by one more division. This is proved of any number that
is one of the two, however it was found.

## Main definitions

* `Newton.step a x` — one step
* `Newton.Near a p c x` — `x` is at most `p / c` too large, or one

## Main results

* `Newton.sqrt_le_step` — a step does not fall below the root
* `Newton.Near.step` — a step squares the precision
* `Newton.correct` — the last correction
-/

namespace Newton

/-- One step. -/
def step (a x : ℕ) : ℕ := (x + a / x) / 2

variable {a p x : ℕ} {c : ℝ}

/-- The two roundings are one. -/
theorem step_eq (hx : 0 < x) : step a x = (x * x + a) / (2 * x) := by
  rw [step, mul_comm 2, ← Nat.div_div_eq_div_mul, Nat.mul_add_div hx]

/-- **No step falls below the root.** -/
theorem sqrt_le_step (hx : 0 < x) : a.sqrt ≤ step a x := by
  rw [step_eq hx, Nat.le_div_iff_mul_le (Nat.mul_pos two_pos hx)]
  have hsq := Nat.sqrt_le a
  have hamgm := two_mul_le_add_sq x a.sqrt
  calc
    a.sqrt * (2 * x) = 2 * x * a.sqrt := by ring
    _ ≤ x ^ 2 + a.sqrt ^ 2 := hamgm
    _ ≤ x * x + a := by rw [sq, sq]; omega

/-- Between a first estimate and four times that, nothing becomes larger. -/
theorem step_le (hp : 0 < p) (hlow : p ≤ x) (hhigh : x ≤ 4 * p) (ha : a < 4 * p ^ 2) :
    a / x ≤ 4 * p ∧ step a x ≤ 4 * p := by
  have hdiv : a / x ≤ 4 * p := by
    refine (Nat.div_le_div_left hlow hp).trans (Nat.div_le_of_le_mul ?_)
    calc
      a ≤ 4 * p ^ 2 := ha.le
      _ = p * (4 * p) := by ring
  exact ⟨hdiv, by rw [step]; omega⟩

/-- How far a step is from the real root. -/
theorem step_sub_le (hx : 0 < x) : (step a x : ℝ) - √a ≤ (x - √a) ^ 2 / (2 * x) := by
  have hx' : (0 : ℝ) < 2 * x := by positivity
  have hstep : (step a x : ℝ) ≤ (x * x + a) / (2 * x) := by
    rw [step_eq hx]
    refine le_of_le_of_eq Nat.cast_div_le ?_
    push_cast
    rfl
  have hroot : √(a : ℝ) * √a = a := Real.mul_self_sqrt a.cast_nonneg
  rw [le_div_iff₀ hx', sub_mul]
  rw [le_div_iff₀ hx'] at hstep
  calc
    (step a x : ℝ) * (2 * x) - √a * (2 * x) ≤ x * x + a - √a * (2 * x) := by linarith
    _ = (x - √a) ^ 2 := by rw [sub_sq, sq (√(a : ℝ)), hroot]; ring

/-- The iterate `x` is at most `p / c` too large, or it has arrived. -/
def Near (a p : ℕ) (c : ℝ) (x : ℕ) : Prop := x ≤ a.sqrt + 1 ∨ (x : ℝ) - √a ≤ p / c

/-- Who is less than one too large has arrived. -/
theorem le_of_sub_lt_one (h : (x : ℝ) - √a < 1) : x ≤ a.sqrt + 1 := by
  have hroot := @Real.real_sqrt_lt_nat_sqrt_succ a
  have hlt : (x : ℝ) < a.sqrt + 2 := by linarith
  have hlt' : x < a.sqrt + 2 := by exact_mod_cast hlt
  omega

/-- **A step squares the precision**, measured by a number `p` that the root is not below. -/
theorem Near.step (h : Near a p c x) (hc : 0 < c) (hp : 0 < p) (hroot : p ≤ a.sqrt)
    (hx : a.sqrt ≤ x) : Near a p (2 * c ^ 2) (step a x) := by
  have hp' : (0 : ℝ) < p := by exact_mod_cast hp
  have hpr : (p : ℝ) ≤ √a := le_trans (by exact_mod_cast hroot) Real.nat_sqrt_le_real_sqrt
  have hpx : (p : ℝ) ≤ x := by exact_mod_cast hroot.trans hx
  have hxpos : 0 < x := hp.trans_le (hroot.trans hx)
  have hstep := @step_sub_le a x hxpos
  have hbelow : √(a : ℝ) < x + 1 := by
    have hxr : (a.sqrt : ℝ) ≤ x := by exact_mod_cast hx
    have hsucc := @Real.real_sqrt_lt_nat_sqrt_succ a
    linarith
  by_cases hone : (x : ℝ) - √a ≤ 1
  · -- an error of at most one is squared and halved
    refine Or.inl (le_of_sub_lt_one (hstep.trans_lt ?_))
    have hx1 : (1 : ℝ) ≤ x := by exact_mod_cast hxpos
    rw [div_lt_one (by linarith)]
    nlinarith
  · have hdist : (x : ℝ) - √a ≤ p / c := by
      refine h.resolve_left fun hle => hone ?_
      have hle' : (x : ℝ) ≤ a.sqrt + 1 := by exact_mod_cast hle
      have hnat := @Real.nat_sqrt_le_real_sqrt a
      linarith
    refine Or.inr (hstep.trans ?_)
    have hnonneg : (0 : ℝ) ≤ x - √a := by linarith
    calc
      ((x : ℝ) - √a) ^ 2 / (2 * x) ≤ (p / c) ^ 2 / (2 * p) := by gcongr
      _ = p / (2 * c ^ 2) := by field_simp

/-- The last iterate is the root, or the number after it. -/
theorem Near.le (h : Near a p c x) (hc : p < c) : x ≤ a.sqrt + 1 := by
  rcases h with h | h
  · exact h
  · have hp : (0 : ℝ) ≤ p := p.cast_nonneg
    exact le_of_sub_lt_one (h.trans_lt ((div_lt_one (hp.trans_lt hc)).mpr hc))

/-- **The last correction** tells them apart. -/
theorem correct (ha : 0 < a) (hlow : a.sqrt ≤ x) (hhigh : x ≤ a.sqrt + 1) :
    x - (if a / x < x then 1 else 0) = a.sqrt := by
  have hpos : 0 < a.sqrt := Nat.sqrt_pos.mpr ha
  rcases hlow.eq_or_lt with rfl | hlt
  · rw [if_neg, Nat.sub_zero]
    exact not_lt.mpr ((Nat.le_div_iff_mul_le hpos).mpr (Nat.sqrt_le a))
  · obtain rfl : x = a.sqrt + 1 := by omega
    rw [if_pos, Nat.add_sub_cancel]
    exact (Nat.div_lt_iff_lt_mul (Nat.succ_pos _)).mpr (Nat.lt_succ_sqrt a)

end Newton
