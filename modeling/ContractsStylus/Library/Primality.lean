import ContractsStylus.Library.Ladder
import Mathlib.Algebra.BigOperators.Associated
import Mathlib.NumberTheory.LegendreSymbol.Basic
import Mathlib.NumberTheory.LucasPrimality

/-!
# Primes and squares by computation

Lucas's test of a number from the prime factors of its predecessor, and Euler's criterion for
squares. Both are equations between powers modulo the number, which are computed by squaring.

## Certificates

Lucas's test needs to know that the factors of the predecessor are prime, which are tested in the
same way, down to two. A certificate lists all the numbers that occur, the small ones first, and
`checkSteps` goes through the list with the numbers that it has accepted so far. Many primes may
share one certificate, and their common factors are tested once.

The test of a certificate is a field of the structure and not a hypothesis of each theorem. It is
evaluated where the certificate is written down, and `Certificate.prime` only looks up whether a
number is on the list.

## Powers that the kernel can compute

`powMod` reduces after every multiplication and goes through the binary digits of the exponent, as
`Nat.pow` followed by a remainder would not. A prime of some hundred bits takes a few hundred
multiplications for each factor.

## Main definitions

* `powMod` — a power modulo a number
* `lucasTest` — the test, at a root whose order is to be the predecessor
* `PrimeStep`, `Certificate` — certificates of primes, from the small ones up

## Main results

* `prime_of_lucasTest` — a number that passes with prime factors is prime
* `Certificate.prime` — what a certificate lists is prime
* `not_isSquare_of_powMod` — Euler's criterion
-/

namespace ContractsStylus

/-- The power `a ^ e` modulo `m`. -/
def powMod (m a e : ℕ) : ℕ :=
  (bitsBe (e.log2 + 1) e).foldl
    (fun r bit => if bit then r * r % m * a % m else r * r % m) (1 % m)

theorem powMod_eq (m a e : ℕ) : powMod m a e = a ^ e % m := by
  refine (ladder_induction (fun r n => r = a ^ n % m) (by rw [pow_zero]) ?_ _).trans ?_
  · rintro r n bit rfl
    have hsquare : a ^ n % m * (a ^ n % m) % m = a ^ (2 * n) % m := by
      rw [← Nat.mul_mod, ← pow_add, two_mul]
    cases bit with
    | true =>
      rw [if_pos rfl, hsquare, Nat.mod_mul_mod, ← pow_succ]
      rfl
    | false =>
      rw [if_neg Bool.false_ne_true, hsquare]
      rfl
  · rw [ofBitsBe_bitsBe, Nat.mod_eq_of_lt Nat.lt_log2_self]

theorem natCast_powMod (m a e : ℕ) : (powMod m a e : ZMod m) = (a : ZMod m) ^ e := by
  rw [powMod_eq, ZMod.natCast_mod, Nat.cast_pow]

/-- A power is one when its remainder is. -/
theorem natCast_pow_eq_one_iff {m : ℕ} (hm : 1 < m) (a e : ℕ) :
    (a : ZMod m) ^ e = 1 ↔ powMod m a e = 1 := by
  rw [← Nat.cast_pow, ← Nat.cast_one, ZMod.natCast_eq_natCast_iff', Nat.mod_eq_of_lt hm,
    powMod_eq]

/-- Lucas's test of `n`. The factors are those of `n - 1`, repeated as often as they divide it. -/
def lucasTest (n root : ℕ) (factors : List Nat.Primes) : Bool :=
  1 < n && (factors.map Subtype.val).prod = n - 1 && powMod n root (n - 1) = 1 &&
    factors.all fun q => powMod n root ((n - 1) / q.val) ≠ 1

/-- **A number that passes the test** is prime. -/
theorem prime_of_lucasTest {n : ℕ} (root : ℕ) (factors : List Nat.Primes)
    (h : lucasTest n root factors = true) : n.Prime := by
  simp only [lucasTest, Bool.and_eq_true, decide_eq_true_iff, List.all_eq_true] at h
  obtain ⟨⟨⟨hn, hprod⟩, hone⟩, hne⟩ := h
  refine lucas_primality n root ((natCast_pow_eq_one_iff hn _ _).mpr hone) ?_
  intro q hq hdvd
  rw [← hprod] at hdvd
  obtain ⟨_, hmem, hqf⟩ := (Prime.dvd_prod_iff hq.prime).mp hdvd
  obtain ⟨factor, hfactor, rfl⟩ := List.mem_map.mp hmem
  rw [(Nat.prime_dvd_prime_iff_eq hq factor.property).mp hqf, ne_eq, natCast_pow_eq_one_iff hn]
  exact hne factor hfactor

/-! ### Certificates

A step lists a number, a root, and the factors of its predecessor. The steps before it are what
makes these factors primes. -/

/-- A number with a root, and the prime factors of its predecessor with their exponents. -/
structure PrimeStep where
  n : ℕ
  root : ℕ
  factors : List (ℕ × ℕ)

namespace PrimeStep

/-- The prime factors, repeated as often as they divide. -/
def primes (e : PrimeStep) : List ℕ := e.factors.flatMap fun f => List.replicate f.2 f.1

/-- Lucas's test, with factors that are known to be prime. -/
def check (known : List ℕ) (e : PrimeStep) : Bool :=
  1 < e.n && e.primes.prod = e.n - 1 && powMod e.n e.root (e.n - 1) = 1 &&
    e.factors.all fun f => f.1 ∈ known && powMod e.n e.root ((e.n - 1) / f.1) ≠ 1

theorem mem_primes {e : PrimeStep} {q : ℕ} (hq : q ∈ e.primes) : ∃ f ∈ e.factors, q = f.1 := by
  obtain ⟨f, hf, hq⟩ := List.mem_flatMap.mp hq
  exact ⟨f, hf, List.eq_of_mem_replicate hq⟩

theorem prime_of_check {known : List ℕ} {e : PrimeStep} (hknown : ∀ q ∈ known, q.Prime)
    (h : e.check known = true) : e.n.Prime := by
  simp only [check, Bool.and_eq_true, decide_eq_true_iff, List.all_eq_true] at h
  obtain ⟨⟨⟨hn, hprod⟩, hone⟩, hfactors⟩ := h
  have hprime : ∀ q ∈ e.primes, q.Prime := by
    intro q hq
    obtain ⟨f, hf, rfl⟩ := mem_primes hq
    exact hknown _ (hfactors f hf).1
  -- the test runs over the factors with repetition
  refine prime_of_lucasTest e.root (e.primes.pmap Subtype.mk hprime) ?_
  have hval : (e.primes.pmap Subtype.mk hprime).map Subtype.val = e.primes := by
    rw [List.map_pmap]
    exact List.pmap_eq_self.mpr fun _ _ => rfl
  simp only [lucasTest, Bool.and_eq_true, decide_eq_true_iff, List.all_eq_true]
  refine ⟨⟨⟨hn, hval.symm ▸ hprod⟩, hone⟩, fun q hq => ?_⟩
  obtain ⟨f, hf, heq⟩ := mem_primes (e := e) (by
    rw [← hval]
    exact List.mem_map_of_mem hq)
  rw [heq]
  exact (hfactors f hf).2

end PrimeStep

/-- Steps pass when each of them does, with the primes before it. -/
def checkSteps (known : List ℕ) : List PrimeStep → Bool
  | [] => true
  | e :: steps => e.check known && checkSteps (e.n :: known) steps

theorem prime_of_checkSteps {known : List ℕ} {steps : List PrimeStep}
    (hknown : ∀ q ∈ known, q.Prime) (h : checkSteps known steps = true) :
    ∀ e ∈ steps, e.n.Prime ∧ e.primes.prod = e.n - 1 ∧ ∀ q ∈ e.primes, q.Prime := by
  induction steps generalizing known with
  | nil => exact fun e he => absurd he List.not_mem_nil
  | cons e steps ih =>
    rw [checkSteps, Bool.and_eq_true] at h
    have hprime := PrimeStep.prime_of_check hknown h.1
    have hcheck := h.1
    simp only [PrimeStep.check, Bool.and_eq_true, decide_eq_true_iff, List.all_eq_true] at hcheck
    obtain ⟨⟨⟨-, hprod⟩, -⟩, hfactors⟩ := hcheck
    rintro e' (_ | ⟨_, he'⟩)
    · refine ⟨hprime, hprod, fun q hq => ?_⟩
      obtain ⟨f, hf, rfl⟩ := PrimeStep.mem_primes hq
      exact hknown f.1 (hfactors f hf).1
    · exact ih (List.forall_mem_cons.mpr ⟨hprime, hknown⟩) h.2 e' he'

/-- Steps that have been checked. The first of them know only that two is prime. -/
structure Certificate where
  steps : List PrimeStep
  checked : checkSteps [2] steps = true

namespace Certificate

/-- The numbers that a certificate lists. -/
def primes (c : Certificate) : List ℕ := c.steps.map PrimeStep.n

variable (c : Certificate)

/-- What a step of a certificate says of its number. -/
theorem prime_and_primes {e : PrimeStep} (he : e ∈ c.steps) :
    e.n.Prime ∧ e.primes.prod = e.n - 1 ∧ ∀ q ∈ e.primes, q.Prime :=
  prime_of_checkSteps (List.forall_mem_singleton.mpr Nat.prime_two) c.checked e he

/-- **What a certificate lists** is prime. -/
theorem prime {p : ℕ} (hp : p ∈ c.primes) : p.Prime := by
  obtain ⟨e, he, rfl⟩ := List.mem_map.mp hp
  exact (c.prime_and_primes he).1

end Certificate

/-! ### Squares

Whether a number is a square modulo a prime is decided by one power. -/

/-- **Euler's criterion**: a number whose power to half the order of the units is minus one is not
a square. -/
theorem not_isSquare_of_powMod {p : ℕ} [Fact p.Prime] {a : ℕ} (hp : 2 < p)
    (h : powMod p a (p / 2) = p - 1) : ¬ IsSquare (a : ZMod p) := by
  have hpow : (a : ZMod p) ^ (p / 2) = -1 := by
    rw [← natCast_powMod, h, Nat.cast_sub (Nat.one_le_of_lt hp), Nat.cast_one,
      CharP.cast_eq_zero, zero_sub]
  have hne : (-1 : ZMod p) ≠ 1 := by
    have : Fact (2 < p) := ⟨hp⟩
    exact ZMod.neg_one_ne_one
  have hzero : (a : ZMod p) ≠ 0 := by
    intro hzero
    rw [hzero, zero_pow (Nat.div_pos hp.le two_pos).ne'] at hpow
    exact neg_ne_zero.mpr one_ne_zero hpow.symm
  rw [ZMod.euler_criterion p hzero, hpow]
  exact hne

end ContractsStylus
