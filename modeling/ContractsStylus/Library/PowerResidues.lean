import ContractsStylus.Library.Primality
import Mathlib.FieldTheory.Finite.Basic
import Mathlib.RingTheory.IntegralDomain
import Mathlib.RingTheory.RootsOfUnity.PrimitiveRoots

/-!
# Powers of an element of a finite field

The units of a finite field are a cyclic group. So the powers of an element are the `k`-th powers,
where `k` is how often its order goes into the number of units. The order is computed from the prime
factors of that number.

## Two readings of an order

The order of an element and the index of the subgroup that it generates are the same information,
and a table of parameters can be wrong about either. The index `k` is the one that has a meaning for
those who look at an element of the field and not at the generator: they can test whether it is a
`k`-th power. For `k = 1` every unit is a power of the generator, which is what a generator is.

## What the test does

It multiplies the prime factors that a certificate lists, to see that they are all there are, and
computes one power for each of them. Nothing is factored and no order is searched for. The factors
of `(p - 1) / k` are among those of `p - 1`, so that one certificate for `p` serves every `k`.

## Main definitions

* `Certificate.orderCheck` — the test of an order

## Main results

* `exists_eq_pow_iff` — the powers of an element
* `orderOf_of_primes` — an order, from prime factors
* `Certificate.prime_and_orderOf` — the order of what passes the test
-/

namespace ContractsStylus

/-- **The powers of an element** are the `k`-th powers, other than zero. -/
theorem exists_eq_pow_iff {F : Type} [Field F] [Finite F] {g x : F} {k : ℕ}
    (hg : orderOf g * k = Nat.card F - 1) (hx : x ≠ 0) :
    (∃ i : ℕ, x = g ^ i) ↔ ∃ y, x = y ^ k := by
  have hunits : Nat.card Fˣ = orderOf g * k := by rw [Nat.card_units, hg]
  have hpos : 0 < orderOf g * k := hunits ▸ Nat.card_pos
  have hn : 0 < orderOf g := Nat.pos_of_mul_pos_right hpos
  have hk : 0 < k := Nat.pos_of_mul_pos_left hpos
  constructor
  · rintro ⟨i, rfl⟩
    -- it is enough that `g` is a `k`-th power
    suffices hpow : ∃ y, g = y ^ k by
      obtain ⟨y, hy⟩ := hpow
      exact ⟨y ^ i, by rw [← pow_mul, mul_comm, pow_mul, ← hy]⟩
    obtain ⟨u, rfl⟩ : IsUnit g := .of_pow_eq_one (pow_orderOf_eq_one g) hn.ne'
    obtain ⟨γ, hγ⟩ : ∃ γ : Fˣ, ∀ x, x ∈ Submonoid.powers γ := IsCyclic.exists_monoid_generator
    obtain ⟨j, rfl⟩ := (Submonoid.mem_powers_iff _ _).mp (hγ u)
    rw [orderOf_units] at hunits hn
    have hdvd : orderOf (γ ^ j) * k ∣ orderOf (γ ^ j) * j := by
      rw [← hunits, ← orderOf_eq_card_of_forall_mem_powers hγ, orderOf_dvd_iff_pow_eq_one,
        mul_comm, pow_mul, pow_orderOf_eq_one]
    obtain ⟨i, hi⟩ := Nat.dvd_of_mul_dvd_mul_left hn hdvd
    exact ⟨γ ^ i, by rw [hi, mul_comm, pow_mul, Units.val_pow_eq_pow_val, Units.val_pow_eq_pow_val]⟩
  · rintro ⟨y, rfl⟩
    have hy : y ≠ 0 := by
      rintro rfl
      exact hx (zero_pow hk.ne')
    have hone : (y ^ k) ^ orderOf g = 1 := by
      have := Fintype.ofFinite F
      rw [← pow_mul, mul_comm, hg, Nat.card_eq_fintype_card,
        FiniteField.pow_card_sub_one_eq_one y hy]
    have : NeZero (orderOf g) := ⟨hn.ne'⟩
    obtain ⟨i, -, hi⟩ := (IsPrimitiveRoot.orderOf g).eq_pow_of_pow_eq_one hone
    exact ⟨i, hi.symm⟩

/-! ### Orders by computation

The order of an element is a given number when its power by that number is one, and no power by a
quotient of it by a prime is. -/

/-- **An order**, from numbers whose product it divides and that are all prime. -/
theorem orderOf_of_primes {n m g : ℕ} (primes : List ℕ) (hprimes : ∀ q ∈ primes, q.Prime)
    (hn : 1 < n) (hm : m ∣ primes.prod) (hpos : 0 < m) (hone : powMod n g m = 1)
    (hne : ∀ q ∈ primes, q ∣ m → powMod n g (m / q) ≠ 1) : orderOf (g : ZMod n) = m := by
  refine orderOf_eq_of_pow_and_pow_div_prime hpos ((natCast_pow_eq_one_iff hn _ _).mpr hone) ?_
  intro q hq hdvd
  obtain ⟨factor, hfactor, hqf⟩ := (Prime.dvd_prod_iff hq.prime).mp (hdvd.trans hm)
  have heq : q = factor := (Nat.prime_dvd_prime_iff_eq hq (hprimes factor hfactor)).mp hqf
  subst heq
  rw [ne_eq, natCast_pow_eq_one_iff hn]
  exact hne q hfactor hdvd

/-- The test of whether the order of `g` modulo `p` goes `k` times into `p - 1`, with the factors
that a certificate has. -/
def Certificate.orderCheck (c : Certificate) (p g k : ℕ) : Bool :=
  (c.steps.find? fun e => e.n = p).any fun e =>
    let n := (p - 1) / k
    0 < n && n * k = p - 1 && powMod p g n = 1 &&
      e.factors.all fun f => !(f.1 ∣ n : Bool) || powMod p g (n / f.1) ≠ 1

/-- **What passes the test** has the order. -/
theorem Certificate.prime_and_orderOf (c : Certificate) {p g k : ℕ}
    (h : c.orderCheck p g k = true) : p.Prime ∧ orderOf (g : ZMod p) * k = p - 1 := by
  rw [orderCheck, Option.any_eq_true] at h
  obtain ⟨e, hfind, h⟩ := h
  obtain rfl : e.n = p := by simpa using List.find?_some hfind
  simp only [Bool.and_eq_true, decide_eq_true_iff, List.all_eq_true] at h
  obtain ⟨⟨⟨hpos, hmul⟩, hone⟩, hne⟩ := h
  obtain ⟨hprime, hprod, hprimes⟩ := c.prime_and_primes (List.mem_of_find?_eq_some hfind)
  have horder : orderOf (g : ZMod e.n) = (e.n - 1) / k := by
    refine orderOf_of_primes e.primes hprimes hprime.one_lt
      (Dvd.intro _ (hmul.trans hprod.symm)) hpos hone ?_
    intro q hq hdvd
    obtain ⟨f, hf, rfl⟩ := PrimeStep.mem_primes hq
    simpa [hdvd] using hne f hf
  exact ⟨hprime, horder ▸ hmul⟩

end ContractsStylus
