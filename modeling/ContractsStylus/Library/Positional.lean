import Mathlib.Algebra.BigOperators.Group.Finset.Basic
import Mathlib.Algebra.BigOperators.Ring.Finset
import Mathlib.Data.Nat.Digits.Defs
import Mathlib.Tactic.Ring

/-!
# Positional numbers

Numbers given by their digits, the lowest first, as arithmetic on them goes through the digits:
a digit is replaced and what does not fit is carried to the next position. That digits are small
matters only for how numbers compare; elsewhere they are elements of a semiring.

## Digits as a function

A number of `n` digits is a function on positions and not a list, because what an algorithm does is
to write one position at a time. `Function.update` is such a write, `positional_update` says what it
does to the number, and `positional_carry` is the step of every algorithm that carries: it is stated
as the sum of the number and the carry that is pending, so that it is kept exactly.

The digits are elements of a semiring. With integers for carries the same lemma is about
subtractions that borrow, and products are digits before they are reduced. Only to compare numbers,
or to find a digit by division, have digits to be smaller than the base.

## Loops

Loops over positions are `Nat.fold` and `Nat.foldRev`, whose passes know that the position is within
bounds. Their invariant rules are stated for an invariant that depends on the position, and
`tryFold` is the loop whose passes may fail; that it does not is then a separate statement.

## Main definitions

* `positional` — the number with given digits
* `tryFold` — loops over positions that may stop

## Main results

* `positional_carry` — the number and its pending carry after a step at one position
* `positional_lt`, `positional_div_mod` — small digits are determined by the number
* `positional_succ_lt_iff` — the last digit that differs decides a comparison
* `fold_induction`, `foldRev_induction` — invariants of loops over positions
-/

namespace ContractsStylus

/-! ### Loops over positions

The invariant of an upward loop is about the positions that are done, and that of a downward loop
about those that are left. -/

section Loops

variable {σ : Type} {n : ℕ} {f : (i : ℕ) → i < n → σ → σ} {s : σ}

/-- A loop upwards keeps what holds at first and what each pass keeps. -/
theorem fold_induction (Inv : ℕ → σ → Prop) (h0 : Inv 0 s)
    (hstep : ∀ (i : ℕ) (hi : i < n) (t : σ), Inv i t → Inv (i + 1) (f i hi t)) :
    Inv n (n.fold f s) := by
  induction n with
  | zero => exact h0
  | succ n ih =>
    rw [Nat.fold_succ]
    exact hstep n n.lt_succ_self _ (ih fun i hi => hstep i (Nat.lt_succ_of_lt hi))

/-- A loop downwards. -/
theorem foldRev_induction (Inv : ℕ → σ → Prop) (hn : Inv n s)
    (hstep : ∀ (i : ℕ) (hi : i < n) (t : σ), Inv (i + 1) t → Inv i (f i hi t)) :
    Inv 0 (n.foldRev f s) := by
  induction n generalizing s with
  | zero => exact hn
  | succ n ih =>
    rw [Nat.foldRev_succ]
    exact ih (hstep n n.lt_succ_self _ hn) fun i hi => hstep i (Nat.lt_succ_of_lt hi)

/-- A loop upwards, any pass of which may stop it. -/
def tryFold (n : ℕ) (f : (i : ℕ) → i < n → σ → Option σ) (s : σ) : Option σ :=
  n.fold (fun i hi t => t.bind (f i hi)) (some s)

/-- A loop that no pass stops. -/
theorem tryFold_eq_some {g : (i : ℕ) → i < n → σ → Option σ}
    (h : ∀ (i : ℕ) (hi : i < n) (t : σ), g i hi t = some (f i hi t)) :
    tryFold n g s = some (n.fold f s) := by
  rw [tryFold]
  induction n with
  | zero => rfl
  | succ n ih =>
    rw [Nat.fold_succ, Nat.fold_succ, ih fun i hi => h i (Nat.lt_succ_of_lt hi)]
    exact h n n.lt_succ_self _

end Loops

/-! ### Digits

Nothing here asks that digits are small. -/

/-- The number whose lowest `n` digits are those of `d`, in base `b`. -/
def positional {R : Type} [CommSemiring R] (b : R) (d : ℕ → R) (n : ℕ) : R :=
  ∑ i ∈ Finset.range n, d i * b ^ i

section Semiring

variable {R : Type} [CommSemiring R] {b r : R} {d e : ℕ → R} {i m n : ℕ}

@[simp] theorem positional_zero : positional b d 0 = 0 := rfl

theorem positional_succ : positional b d (n + 1) = positional b d n + d n * b ^ n :=
  Finset.sum_range_succ _ n

theorem positional_congr (h : ∀ i < n, d i = e i) : positional b d n = positional b e n :=
  Finset.sum_congr rfl fun i hi => by rw [h i (Finset.mem_range.mp hi)]

theorem positional_eq_zero (h : ∀ i < n, d i = 0) : positional b d n = 0 :=
  Finset.sum_eq_zero fun i hi => by rw [h i (Finset.mem_range.mp hi), zero_mul]

/-- The low digits and the high digits. -/
theorem positional_add :
    positional b d (m + n) = positional b d m + b ^ m * positional b (fun i => d (m + i)) n := by
  rw [positional, Finset.sum_range_add, positional, positional, Finset.mul_sum]
  congr 1
  refine Finset.sum_congr rfl fun i _ => ?_
  rw [pow_add]
  ring

/-- The lowest digit split off. -/
theorem positional_low (hn : 0 < n) :
    positional b d n = d 0 + b * positional b (fun i => d (i + 1)) (n - 1) := by
  obtain ⟨k, rfl⟩ := Nat.exists_eq_add_of_lt hn
  rw [zero_add, Nat.add_sub_cancel, add_comm k, positional_add, positional_succ, positional_zero]
  simp only [zero_add, pow_zero, mul_one, pow_one, add_comm 1]

/-- Blocks of digits are digits in a larger base. -/
theorem positional_blocks {k : ℕ} : positional b d (n * k) =
    positional (b ^ k) (fun i => positional b (fun j => d (i * k + j)) k) n := by
  induction n with
  | zero => rw [zero_mul, positional_zero, positional_zero]
  | succ n ih =>
    rw [add_one_mul, positional_add, ih, positional_succ, ← pow_mul, mul_comm n k, mul_comm]

/-- Digit by digit, multiplication by a number. -/
theorem positional_mul (k : R) : positional b (fun i => k * d i) n = k * positional b d n := by
  rw [positional, positional, Finset.mul_sum]
  exact Finset.sum_congr rfl fun i _ => mul_assoc _ _ _

theorem positional_sum : positional b (fun i => d i + e i) n =
    positional b d n + positional b e n := by
  rw [positional, positional, positional, ← Finset.sum_add_distrib]
  exact Finset.sum_congr rfl fun i _ => add_mul _ _ _

/-- One digit replaced. -/
theorem positional_update (hi : i < n) :
    positional b (Function.update d i r) n + d i * b ^ i = positional b d n + r * b ^ i := by
  induction n with
  | zero => exact absurd hi (Nat.not_lt_zero i)
  | succ n ih =>
    rw [positional_succ, positional_succ]
    rcases Nat.lt_succ_iff_lt_or_eq.mp hi with hlt | rfl
    · rw [Function.update_of_ne hlt.ne', add_right_comm, ih hlt, add_right_comm]
    · have hlow : positional b (Function.update d i r) i = positional b d i :=
        positional_congr fun j hj => Function.update_of_ne hj.ne _ _
      rw [hlow, Function.update_self]
      ring

end Semiring

/-- A step of an addition with carry. The digit `d i` is replaced by `r`, the carry `c` into this
position is used up, and `c'` is carried to the next one. -/
theorem positional_carry {R : Type} [CommSemiring R] [IsCancelAdd R] {b r x c c' : R} {d : ℕ → R}
    {i n : ℕ} (hi : i < n) (h : r + b * c' = d i + x + c) :
    positional b (Function.update d i r) n + c' * b ^ (i + 1) =
      positional b d n + c * b ^ i + x * b ^ i := by
  refine add_right_cancel (b := d i * b ^ i) ?_
  calc
    positional b (Function.update d i r) n + c' * b ^ (i + 1) + d i * b ^ i =
        positional b (Function.update d i r) n + d i * b ^ i + c' * b ^ (i + 1) :=
      add_right_comm _ _ _
    _ = positional b d n + r * b ^ i + c' * b ^ (i + 1) := by rw [positional_update hi]
    _ = positional b d n + (r + b * c') * b ^ i := by ring
    _ = positional b d n + c * b ^ i + x * b ^ i + d i * b ^ i := by
      rw [h]
      ring

/-! ### Small digits

Digits that are smaller than the base are unique, are found by division, and decide comparisons from
the top. -/

section Small

variable {b : ℕ} {d e : ℕ → ℕ} {i n : ℕ}

theorem positional_cast :
    ((positional b d n : ℕ) : ℤ) = positional (b : ℤ) (fun i => (d i : ℤ)) n := by
  simp only [positional, Nat.cast_sum, Nat.cast_mul, Nat.cast_pow]

/-- A number of `n` digits is smaller than `b ^ n`. -/
theorem positional_lt (hd : ∀ i < n, d i < b) : positional b d n < b ^ n := by
  induction n with
  | zero => exact Nat.one_pos
  | succ n ih =>
    have hlow := ih fun i hi => hd i (Nat.lt_succ_of_lt hi)
    calc
      positional b d (n + 1) = positional b d n + d n * b ^ n := positional_succ
      _ < b ^ n + d n * b ^ n := Nat.add_lt_add_right hlow _
      _ = (d n + 1) * b ^ n := by ring
      _ ≤ b * b ^ n := Nat.mul_le_mul_right _ (hd n n.lt_succ_self)
      _ = b ^ (n + 1) := (pow_succ' b n).symm

/-- **Each digit is found** by division and remainder. -/
theorem positional_div_mod (hd : ∀ i < n, d i < b) (hi : i < n) :
    positional b d n / b ^ i % b = d i := by
  obtain ⟨k, rfl⟩ := Nat.exists_eq_add_of_le hi
  have hb : 0 < b := (Nat.zero_le _).trans_lt (hd i hi)
  have hlow : positional b d i < b ^ i :=
    positional_lt fun j hj => hd j (hj.trans hi)
  have hhigh : positional b d (i + (1 + k)) =
      positional b d i + b ^ i * (d i + b * positional b (fun j => d (i + (1 + j))) k) := by
    rw [positional_add, positional_add (m := 1), positional_succ, positional_zero]
    simp
  rw [show i.succ + k = i + (1 + k) by omega, hhigh, Nat.add_mul_div_left _ _ (Nat.pow_pos hb),
    Nat.div_eq_of_lt hlow, Nat.zero_add, Nat.add_mul_mod_self_left, Nat.mod_eq_of_lt (hd i hi)]

/-- The digits found by division and remainder are those of the number. -/
theorem positional_div_pow (m : ℕ) : positional b (fun i => m / b ^ i % b) n = m % b ^ n := by
  induction n with
  | zero => rw [positional_zero, pow_zero, Nat.mod_one]
  | succ n ih => rw [positional_succ, ih, Nat.mod_pow_succ, mul_comm]

/-- Digits in a list. -/
theorem ofDigits_eq_positional (l : List ℕ) :
    Nat.ofDigits b l = positional b (fun i => l.getD i 0) l.length := by
  induction l with
  | nil => rfl
  | cons a l ih =>
    rw [Nat.ofDigits_cons, ih, List.length_cons, add_comm l.length, positional_add,
      positional_succ, positional_zero, zero_add, pow_zero, mul_one, pow_one]
    refine congrArg _ (congrArg _ (positional_congr fun i _ => ?_))
    rw [add_comm 1, List.getD_cons_succ]

/-- **A quotient** by a divisor of the base: each digit is divided, and takes the remainder of the
next one. -/
theorem positional_shift {h k : ℕ} :
    k * positional (h * k) (fun i => d i / k + h * (d (i + 1) % k)) n + d 0 % k =
      positional (h * k) d n + (h * k) ^ n * (d n % k) := by
  induction n with
  | zero => simp
  | succ n ih =>
    have hdigit := Nat.div_add_mod (d n) k
    calc
      k * positional (h * k) (fun i => d i / k + h * (d (i + 1) % k)) (n + 1) + d 0 % k =
          k * positional (h * k) (fun i => d i / k + h * (d (i + 1) % k)) n + d 0 % k +
            (k * (d n / k) + h * k * (d (n + 1) % k)) * (h * k) ^ n := by
        rw [positional_succ]
        ring
      _ = positional (h * k) d n + (k * (d n / k) + d n % k) * (h * k) ^ n +
            (h * k) ^ (n + 1) * (d (n + 1) % k) := by
        rw [ih]
        ring
      _ = positional (h * k) d (n + 1) + (h * k) ^ (n + 1) * (d (n + 1) % k) := by
        rw [hdigit, positional_succ]

/-- The high digits, where there are no digits from the `n`-th on. -/
theorem positional_drop (hd : ∀ i < n, d i < b) (hzero : ∀ i, n ≤ i → d i = 0) (hb : 0 < b)
    (q : ℕ) : positional b (fun i => d (q + i)) n = positional b d n / b ^ q := by
  have hall : ∀ i < q + n, d i < b := fun i _ => by
    rcases Nat.lt_or_ge i n with hi | hi
    · exact hd i hi
    · rw [hzero i hi]
      exact hb
  have hextend : positional b d (n + q) = positional b d n := by
    rw [positional_add, positional_eq_zero (d := fun i => d (n + i)) fun i _ =>
      hzero _ (Nat.le_add_right _ _), mul_zero, add_zero]
  rw [← hextend, add_comm n, positional_add, Nat.add_mul_div_left _ _ (Nat.pow_pos hb),
    Nat.div_eq_of_lt (positional_lt fun i hi => hall i (by omega)), zero_add]

/-- **Numbers that are equal have equal digits.** -/
theorem eq_of_positional_eq (hd : ∀ i < n, d i < b) (he : ∀ i < n, e i < b)
    (h : positional b d n = positional b e n) (hi : i < n) : d i = e i := by
  rw [← positional_div_mod hd hi, h, positional_div_mod he hi]

/-- The highest digits decide a comparison, and the lower ones when these are equal. -/
theorem positional_succ_lt_iff (hd : ∀ i < n, d i < b) (he : ∀ i < n, e i < b) :
    positional b d (n + 1) < positional b e (n + 1) ↔
      d n < e n ∨ d n = e n ∧ positional b d n < positional b e n := by
  have hdn := positional_lt hd
  have hen := positional_lt he
  rw [positional_succ, positional_succ]
  rcases Nat.lt_trichotomy (d n) (e n) with hlt | heq | hgt
  · have hmul : (d n + 1) * b ^ n ≤ e n * b ^ n := Nat.mul_le_mul_right _ hlt
    rw [Nat.add_one_mul] at hmul
    omega
  · rw [heq]
    omega
  · have hmul : (e n + 1) * b ^ n ≤ d n * b ^ n := Nat.mul_le_mul_right _ hgt
    rw [Nat.add_one_mul] at hmul
    omega

end Small

end ContractsStylus
