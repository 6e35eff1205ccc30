import ContractsStylus.Crypto.FpField
import ContractsStylus.Library.BinaryInversion
import ContractsStylus.Library.Primality
import ContractsStylus.Library.While
import Mathlib.Tactic.NormNum.Prime

/-!
# Inverses of field elements

The inverse by halving and subtracting, on Montgomery forms. Cofactors are field elements: an even
form is halved as it is, and an odd one after the modulus was added, whose carry is the highest bit
of the half. They start from `R2`, so that the inverse has the form of an inverse.

The loops are bounded by fuel, and with enough of it they end.

## Loop and fuel

The loop is a while loop in the source. It subtracts the smaller of two numbers from the larger, and
halves whichever has become even, so their sum falls with every pass. The library has this algorithm
on numbers with its invariant and its bound; the loop on limbs goes along with it step by step.

Only zero has no inverse, and the source asks for that first. That the loop ends with the number one
and not with another common divisor is where the modulus has to be a prime.

## Main definitions

* `Fp.halve` — half of an element
* `Fp.inverse` — the inverse

## Main results

* `Fp.halve_spec` — with or without a spare bit
* `Fp.exists_halveLoop`, `Fp.exists_inverseStep` — one pass
* `Fp.Element.inverse_eq` — the code computes the inverse of the field
* `Fp.inverse_spec` — the inverse of every element but zero, for a prime modulus
-/

namespace ContractsStylus

namespace Fp

variable {N : ℕ} {P : FpParams N}

/-! ### The algorithm

The loops of the source are while loops, so each has fuel here, and the results are optional for
that reason. The option inside is that of the source, whose answer for zero is `None`. -/

theorem lastLimb_lt (P : FpParams N) : N - 1 < N := Nat.sub_lt P.pos Nat.one_pos

/-- Half of an element, on which the loops that halve `u` and `v` keep `b` and `c`. -/
def halve (b : Fp P) : Fp P :=
  have hlast := lastLimb_lt P
  if b.montgomeryForm.isEven P.pos then ⟨b.montgomeryForm.div2Assign⟩
  else
    let (sum, carry) := b.montgomeryForm.checkedAddAssign P.MODULUS
    let half := sum.div2Assign
    if !P.HAS_MODULUS_SPARE_BIT && carry then
      ⟨⟨half.limbs.set (N - 1) (half.limbs[N - 1] ||| (1 : Limb) <<< 63)⟩⟩
    else ⟨half⟩

/-- The loop that halves `u`, with `b`, while `u` is even; and that of `v`, with `c`. -/
def halveLoop (fuel : ℕ) (u : Uint N) (b : Fp P) : Option (Uint N × Fp P) :=
  whileLoop (fun s => s.1.isEven P.pos) (fun s => some (s.1.div2Assign, s.2.halve)) fuel (u, b)

/-- The variables of `inverse`. -/
structure Inversion (P : FpParams N) where
  u : Uint N
  v : Uint N
  b : Fp P
  c : Fp P

/-- The body of the outer loop. -/
def inverseStep (fuel : ℕ) (s : Inversion P) : Option (Inversion P) := do
  let (u, b) ← halveLoop fuel s.u s.b
  let (v, c) ← halveLoop fuel s.v s.c
  if v.cmp u = .lt then some ⟨(u.checkedSubAssign v).1, v, b.subAssign c, c⟩
  else some ⟨u, (v.checkedSubAssign u).1, b, c.subAssign b⟩

/-- The outer loop. -/
def inverseLoop (fuel : ℕ) : Inversion P → Option (Inversion P) :=
  whileLoop (fun s => s.u ≠ Uint.ONE P.pos && s.v ≠ Uint.ONE P.pos) (inverseStep fuel) fuel

/-- The variables before the loop. -/
def Inversion.start (a : Fp P) : Inversion P :=
  -- `R2` avoids an unnecessary reduction step
  ⟨a.montgomeryForm, P.MODULUS, newUnchecked P.R2, ZERO⟩

/-- Compute `a⁻¹` if `a` is not zero. The outer option is for fuel. -/
def inverse (fuel : ℕ) (a : Fp P) : Option (Option (Fp P)) :=
  if a.isZero then some none
  else (inverseLoop fuel (Inversion.start a)).map fun s =>
    if s.u = Uint.ONE P.pos then some s.b else some s.c

/-! ### Halves

Halving a form that is odd adds the modulus first, and the carry out of that sum becomes the highest
bit of the half. On elements of the field both cases are a division by two. -/

variable {a b c : Fp P} {u v : Uint N} {fuel : ℕ}

/-- **Half of an element** is half of its form, or of its form and the modulus. -/
theorem halve_spec (hb : b.Reduced) : ∃ m ≤ 1,
    2 * (halve b).montgomeryForm.toNat = b.montgomeryForm.toNat + m * P.p := by
  have hN := P.pos
  obtain ⟨k, hk⟩ : 2 ∣ 2 ^ (64 * N) := dvd_pow_self 2 (by omega)
  rw [halve]
  split
  · rename_i heven
    rw [Uint.isEven_iff] at heven
    refine ⟨0, Nat.zero_le _, ?_⟩
    rw [zero_mul, add_zero]
    exact Uint.two_mul_toNat_div2Assign heven
  · rename_i hodd
    rw [Uint.isEven_iff] at hodd
    have hp : P.p % 2 = 1 := P.odd
    have hsum : _ + _ = b.montgomeryForm.toNat + P.p :=
      b.montgomeryForm.checkedAddAssign_spec P.MODULUS
    have hlt := (b.montgomeryForm.checkedAddAssign P.MODULUS).1.toNat_lt
    refine ⟨1, le_rfl, ?_⟩
    simp only
    generalize b.montgomeryForm.checkedAddAssign P.MODULUS = r at hsum hlt ⊢
    obtain ⟨sum, carry⟩ := r
    simp only at hsum hlt ⊢
    have heven : sum.toNat % 2 = 0 := by
      rw [hk, mul_assoc] at hsum
      omega
    have hhalf := Uint.two_mul_toNat_div2Assign heven
    cases carry with
    | false =>
      rw [Bool.and_false, if_neg Bool.false_ne_true, hhalf, one_mul]
      simpa using hsum
    | true =>
      rw [Bool.toNat_true, mul_one] at hsum
      have hspare : P.HAS_MODULUS_SPARE_BIT = false := by
        rw [← Bool.not_eq_true]
        intro hspare
        have hfit : 2 * P.p ≤ 2 ^ (64 * N) := P.two_mul_le_of_spare hspare
        have hlt : b.montgomeryForm.toNat < P.p := hb
        omega
      rw [hspare, Bool.not_false, Bool.and_true, if_pos rfl,
        Uint.toNat_set_top_bit hN _ (by rwa [hhalf]), hhalf, one_mul]
      exact hsum

theorem reduced_halve (hb : b.Reduced) : (halve b).Reduced := by
  obtain ⟨m, hm, hhalf⟩ := halve_spec hb
  have hmul : m * P.p ≤ 1 * P.p := Nat.mul_le_mul_right _ hm
  rw [Reduced] at hb ⊢
  omega

/-- The form of an element, modulo the modulus. -/
def formZMod (b : Fp P) : ZMod P.p := b.montgomeryForm.toNat

theorem formZMod_halve (hb : b.Reduced) : 2 * formZMod (halve b) = formZMod b := by
  obtain ⟨m, -, hhalf⟩ := halve_spec hb
  have hcast := congrArg (Nat.cast : ℕ → ZMod P.p) hhalf
  push_cast at hcast
  rwa [ZMod.natCast_self, mul_zero, add_zero] at hcast

theorem formZMod_subAssign (hb : b.Reduced) (hc : c.Reduced) :
    formZMod (subAssign b c) = formZMod b - formZMod c := by
  have hle : c.montgomeryForm.toNat ≤ P.p := Nat.le_of_lt hc
  rw [formZMod, montgomeryForm_subAssign hb hc, ZMod.natCast_mod, Nat.cast_add, Nat.cast_sub hle,
    ZMod.natCast_self, zero_sub, ← sub_eq_add_neg]
  rfl

/-- Two is a unit modulo an odd number. -/
theorem isUnit_two (P : FpParams N) : IsUnit (2 : ZMod P.p) := by
  have hcoprime : Nat.Coprime 2 P.p := Nat.coprime_two_left.mpr (Nat.odd_iff.mpr P.odd)
  exact_mod_cast (ZMod.isUnit_iff_coprime 2 P.p).mpr hcoprime

/-! ### The loops

`formZMod` forgets everything about an element but its form modulo the modulus. There the invariants
are equations, and halving and subtracting are what they should be. -/

/-- The invariant of the inner loop: `u` and `b` were halved as often. -/
def Halved (u : Uint N) (b : Fp P) (s : Uint N × Fp P) : Prop :=
  0 < s.1.toNat ∧ s.2.Reduced ∧
    ∃ k, u.toNat = 2 ^ k * s.1.toNat ∧ formZMod b = (2 ^ k : ℕ) * formZMod s.2

theorem Halved.halve {s : Uint N × Fp P} (h : Halved u b s) (heven : s.1.toNat % 2 = 0) :
    Halved u b (s.1.div2Assign, s.2.halve) ∧ s.1.div2Assign.toNat < s.1.toNat := by
  obtain ⟨hpos, hreduced, k, hk, hform⟩ := h
  have htwo := (Uint.two_mul_toNat_div2Assign heven).symm
  refine ⟨⟨?_, reduced_halve hreduced, k + 1, ?_, ?_⟩, by omega⟩
  · simp only
    omega
  · rw [hk, htwo]
    ring
  · rw [hform, ← formZMod_halve hreduced]
    push_cast
    ring

/-- **The inner loop** halves a number until it is odd, and its cofactor as often. -/
theorem exists_halveLoop (fuel : ℕ) (hu : 0 < u.toNat) (hb : b.Reduced) (hfuel : u.toNat < fuel) :
    ∃ u' b' k, halveLoop fuel u b = some (u', b') ∧ b'.Reduced ∧ u'.toNat % 2 = 1 ∧
      u.toNat = 2 ^ k * u'.toNat ∧ formZMod b = 2 ^ k * formZMod b' := by
  have hbody : ∀ s : Uint N × Fp P, Halved u b s → s.1.isEven P.pos = true →
      ∃ s', some (s.1.div2Assign, s.2.halve) = some s' ∧ Halved u b s' ∧
        s'.1.toNat < s.1.toNat := fun s hs heven =>
    ⟨_, rfl, hs.halve ((Uint.isEven_iff P.pos).mp heven)⟩
  obtain ⟨⟨u', b'⟩, hloop, ⟨-, hreduced, k, hk, hform⟩, hodd⟩ :=
    whileLoop_total (s := (u, b)) hbody ⟨hu, hb, 0, by simp⟩ hfuel
  rw [← Bool.not_eq_true, Uint.isEven_iff] at hodd
  push_cast at hform
  exact ⟨u', b', k, hloop, hreduced, Nat.mod_two_ne_zero.mp hodd, hk, hform⟩

/-- The invariant of the outer loop: cofactors of `u` and `v`, up to the square of `2 ^ (64 * N)`,
that are reduced. -/
structure Inversion.Sound (a : Fp P) (s : Inversion P) : Prop where
  cofactors : Cofactors (formZMod a) (P.W * P.W : ZMod P.p) s.u.toNat s.v.toNat (formZMod s.b)
    (formZMod s.c)
  left_reduced : s.b.Reduced
  right_reduced : s.c.Reduced

/-- The sum that gets smaller. -/
def Inversion.size (s : Inversion P) : ℕ := s.u.toNat + s.v.toNat

/-- Subtracting the smaller number, and its cofactor. -/
theorem cofactors_subAssign {r : ZMod P.p} (hb : b.Reduced) (hc : c.Reduced)
    (h : Cofactors (formZMod a) r u.toNat v.toNat (formZMod b) (formZMod c))
    (hlt : v.toNat < u.toNat) :
    Cofactors (formZMod a) r (u.checkedSubAssign v).1.toNat v.toNat (formZMod (subAssign b c))
        (formZMod c) ∧
      (subAssign b c).Reduced ∧ (u.checkedSubAssign v).1.toNat < u.toNat := by
  have hsub := Uint.toNat_checkedSubAssign_of_le hlt.le
  refine ⟨?_, (intoBigint_subAssign hb hc).1, ?_⟩
  · rw [hsub, formZMod_subAssign hb hc]
    exact h.sub hlt
  · rw [hsub]
    exact Nat.sub_lt h.left_pos h.right_pos

/-- **The outer loop** halves both numbers until they are odd, and subtracts the smaller one, which
they are not equal to. -/
theorem exists_inverseStep {s : Inversion P} (hs : s.Sound a) (hu : s.u.toNat ≠ 1)
    (hv : s.v.toNat ≠ 1) (hfuel : s.size < fuel) :
    ∃ s', inverseStep fuel s = some s' ∧ s'.Sound a ∧ s'.size < s.size := by
  have hsize : s.size = s.u.toNat + s.v.toNat := rfl
  obtain ⟨u, b, k, hloopu, hb, hoddu, hk, hformb⟩ :=
    exists_halveLoop fuel hs.cofactors.left_pos hs.left_reduced (by omega)
  obtain ⟨v, c, l, hloopv, hc, hoddv, hl, hformc⟩ :=
    exists_halveLoop fuel hs.cofactors.right_pos hs.right_reduced (by omega)
  have hcofactors := hs.cofactors
  rw [hk, hformb, hl, hformc] at hcofactors
  have hne : u.toNat ≠ v.toNat := hcofactors.ne_of_halved (hk ▸ hu) (hl ▸ hv)
  have hhalved := ((hcofactors.halve (isUnit_two P)).symm.halve (isUnit_two P)).symm
  have hleu : u.toNat ≤ s.u.toNat := hk ▸ Nat.le_mul_of_pos_left _ (Nat.two_pow_pos k)
  have hlev : v.toNat ≤ s.v.toNat := hl ▸ Nat.le_mul_of_pos_left _ (Nat.two_pow_pos l)
  rw [inverseStep, hloopu, Option.bind_eq_bind, Option.bind_some, hloopv]
  simp only [Option.bind_some, Uint.cmp_eq, Nat.compare_eq_lt]
  split
  · rename_i hlt
    obtain ⟨hsub, hreduced, hless⟩ := cofactors_subAssign hb hc hhalved hlt
    exact ⟨_, rfl, ⟨hsub, hreduced, hc⟩, Nat.add_lt_add_of_lt_of_le (hless.trans_le hleu) hlev⟩
  · rename_i hnot
    have hlt : u.toNat < v.toNat := lt_of_le_of_ne (not_lt.mp hnot) hne
    obtain ⟨hsub, hreduced, hless⟩ := cofactors_subAssign hc hb hhalved.symm hlt
    exact ⟨_, rfl, ⟨hsub.symm, hb, hreduced⟩,
      Nat.add_lt_add_of_le_of_lt hleu (hless.trans_le hlev)⟩

/-! ### The inverse

The fuel that is enough bounds the sum of the two numbers, and is the same for all elements of a
field. -/

theorem R2_reduced (P : FpParams N) : (newUnchecked P.R2 : Fp P).Reduced := by
  refine lt_of_le_of_ne P.R2_le fun heq => ?_
  have hdvd : P.p ∣ P.W * P.W := by
    rw [← Nat.modEq_zero_iff_dvd]
    exact P.R2_modEq.symm.trans (Nat.modEq_zero_iff_dvd.mpr (dvd_of_eq heq.symm))
  have hcoprime : Nat.Coprime P.p (P.W * P.W) := Nat.Coprime.mul_right P.gcd_W P.gcd_W
  have hone : P.p = 1 := Nat.Coprime.eq_one_of_dvd hcoprime hdvd
  exact absurd P.one_lt (by rw [show P.MODULUS.toNat = 1 from hone]; exact lt_irrefl 1)

theorem isZero_iff_eq_ZERO : a.isZero = true ↔ a = ZERO := by
  rw [isZero, Uint.isZero, Uint.eq_iff]
  cases a
  exact (Fp.mk.injEq _ _).symm ▸ Iff.rfl

/-- The cofactor of one is an inverse. -/
theorem mul_eq_ONE (hb : b.Reduced) (h : formZMod b * formZMod a = (P.W * P.W : ZMod P.p)) :
    mul a b = ONE := by
  have hreduced : (mul a b).Reduced := .mul a hb
  have hform : b.montgomeryForm.toNat * a.montgomeryForm.toNat ≡ P.W * P.W [MOD P.p] :=
    (ZMod.natCast_eq_natCast_iff _ _ _).mp (by
      push_cast
      exact h)
  have hmul := (mul_spec a b (mul_lt hb.le)).2
  rw [mul_comm a.montgomeryForm.toNat] at hmul
  refine eq_of_intoBigint_eq hreduced reduced_ONE ?_
  rw [intoBigint_ONE, intoBigint_eq hreduced (n := 1)]
  · exact Nat.mod_eq_of_lt P.one_lt
  · rw [mul_one]
    exact Nat.ModEq.cancel_left_of_coprime P.gcd_W (hmul.trans hform)

theorem Inversion.Sound.start (hp : P.p.Prime) (ha : a.Reduced) (hzero : a.isZero ≠ true) :
    (Inversion.start a).Sound a := by
  have hpos : 0 < a.montgomeryForm.toNat :=
    Nat.pos_of_ne_zero fun h => hzero (Uint.isZero_iff.mpr h)
  have hR2 := (ZMod.natCast_eq_natCast_iff _ _ _).mpr P.R2_modEq
  push_cast at hR2
  refine ⟨⟨?_, ?_, ?_, hpos, P.p_pos⟩, R2_reduced P, reduced_ZERO⟩
  · exact congrArg (· * formZMod a) hR2
  · change ((ZERO : Fp P).montgomeryForm.toNat : ZMod P.p) * _ = _ * ((P.p : ℕ) : ZMod P.p)
    rw [ZMod.natCast_self, mul_zero, ZERO, newUnchecked, Uint.toNat_ZERO, Nat.cast_zero, zero_mul]
  · exact (Nat.coprime_of_lt_prime hpos.ne' ha hp).symm

/-- **The outer loop ends** when one of the numbers is one. -/
theorem exists_inverseLoop {s : Inversion P} (hs : s.Sound a) (hfuel : 2 ^ (64 * N + 1) < fuel) :
    ∃ s', inverseLoop fuel s = some s' ∧ s'.Sound a ∧ (s'.u.toNat = 1 ∨ s'.v.toNat = 1) := by
  have hsize (s : Inversion P) : s.size < fuel := by
    have hu := s.u.toNat_lt
    have hv := s.v.toNat_lt
    rw [pow_succ] at hfuel
    rw [Inversion.size]
    omega
  have hbody (s : Inversion P) (hs : s.Sound a)
      (hcond : (s.u ≠ Uint.ONE P.pos && s.v ≠ Uint.ONE P.pos) = true) :
      ∃ s', inverseStep fuel s = some s' ∧ s'.Sound a ∧ s'.size < s.size := by
    rw [Bool.and_eq_true, decide_eq_true_iff, decide_eq_true_iff, ne_eq, ne_eq,
      Uint.eq_ONE_iff, Uint.eq_ONE_iff] at hcond
    exact exists_inverseStep hs hcond.1 hcond.2 (hsize s)
  obtain ⟨s', hloop, hs', hdone⟩ := whileLoop_total hbody hs (hsize s)
  refine ⟨s', hloop, hs', ?_⟩
  rwa [Bool.and_eq_false_iff, decide_eq_false_iff_not, decide_eq_false_iff_not, not_not, not_not,
    Uint.eq_ONE_iff, Uint.eq_ONE_iff] at hdone

/-- The result is an inverse. -/
theorem exists_inverse (hp : P.p.Prime) (ha : a.Reduced) (hzero : a.isZero ≠ true)
    (hfuel : 2 ^ (64 * N + 1) < fuel) :
    ∃ b, inverse fuel a = some (some b) ∧ b.Reduced ∧ mul a b = ONE := by
  obtain ⟨s, hloop, hs, hdone⟩ := exists_inverseLoop (Inversion.Sound.start hp ha hzero) hfuel
  rw [inverse, if_neg hzero, hloop, Option.map_some]
  by_cases hu : s.u.toNat = 1
  · refine ⟨s.b, by rw [if_pos ((Uint.eq_ONE_iff _).mpr hu)], hs.left_reduced,
      mul_eq_ONE hs.left_reduced ?_⟩
    rw [hs.cofactors.left_eq, hu, Nat.cast_one, mul_one]
  · have hv : s.v.toNat = 1 := hdone.resolve_left hu
    refine ⟨s.c, by rw [if_neg ((Uint.eq_ONE_iff _).not.mpr hu)], hs.right_reduced,
      mul_eq_ONE hs.right_reduced ?_⟩
    rw [hs.cofactors.right_eq, hv, Nat.cast_one, mul_one]

/-- **The code computes the inverse of the field.** -/
theorem Element.inverse_eq [Fact P.p.Prime] (a : Element P) (hfuel : 2 ^ (64 * N + 1) < fuel) :
    inverse fuel a.val = some (if a = 0 then none else some a⁻¹.val) := by
  have hval : (0 : Element P).val = ZERO := by
    change (Element.zero : Element P).val = ZERO
    rw [Element.zero]
  split
  · rename_i hzero
    rw [hzero, hval, inverse, if_pos (isZero_iff_eq_ZERO.mpr rfl)]
  · rename_i hzero
    obtain ⟨b, hinverse, hb, hmul⟩ := exists_inverse Fact.out a.property
      (fun h => hzero (Subtype.ext ((isZero_iff_eq_ZERO.mp h).trans hval.symm))) hfuel
    let e : Element P := ⟨b, hb⟩
    have hone : a * e = 1 := by
      refine Subtype.ext ?_
      change (Element.mul a e).val = (Element.one : Element P).val
      rw [Element.mul, Element.one]
      exact hmul
    rw [hinverse, ← eq_inv_of_mul_eq_one_right hone]

/-- **The inverse**, for every prime modulus that fits the limbs, with or without a spare bit. With
enough fuel the loops end. The inverse of zero is `none`, and that of another element is reduced
and gives one when it is multiplied by the element. -/
theorem inverse_spec (hp : P.MODULUS.toNat.Prime) (ha : a.Reduced) :
    ∃ r : Option (Fp P), (∀ fuel > 2 ^ (64 * N + 1), inverse fuel a = some r) ∧
      (r = none ↔ a = ZERO) ∧
      ∀ b, r = some b → b.Reduced ∧ mulAssign a b = ONE ∧
        a.intoBigint.toNat * b.intoBigint.toNat % P.MODULUS.toNat = 1 := by
  have : Fact P.p.Prime := ⟨hp⟩
  have hrun (fuel : ℕ) := @Element.inverse_eq N P fuel _ ⟨a, ha⟩
  by_cases hzero : a.isZero = true
  · have heq := isZero_iff_eq_ZERO.mp hzero
    exact ⟨none, fun fuel _ => if_pos hzero, iff_of_true rfl heq, fun b hb => by cases hb⟩
  · obtain ⟨b, hinverse, hb, hmul⟩ := exists_inverse hp ha hzero (Nat.lt_succ_self _)
    refine ⟨some b, fun fuel hfuel => ?_, iff_of_false (by simp) (isZero_iff_eq_ZERO.not.mp hzero),
      ?_⟩
    · rw [hrun fuel hfuel, ← hrun _ (Nat.lt_succ_self _), hinverse]
    · rintro b ⟨⟩
      refine ⟨hb, hmul, ?_⟩
      rw [← intoBigint_ONE (P := P), ← hmul]
      exact (intoBigint_mul a hb).symm

/-- Modulo a prime that leaves no spare bit. -/
theorem inverse_spec_no_spare : ∃ P : FpParams 1, P.MODULUS.toNat = 18446744073709493651 ∧
    P.HAS_MODULUS_SPARE_BIT = false ∧ ∃ b : Fp P,
      (∀ fuel > 2 ^ 65, inverse fuel ⟨⟨#v[2]⟩⟩ = some (some b)) ∧
      b.Reduced ∧ mulAssign ⟨⟨#v[2]⟩⟩ b = ONE := by
  let P : FpParams 1 := ⟨⟨#v[18446744073709493651]⟩, by decide, by decide⟩
  have hprime : P.MODULUS.toNat.Prime := prime_of_lucasTest 6
    [⟨2, Nat.prime_two⟩, ⟨5, Nat.prime_five⟩, ⟨5, Nat.prime_five⟩, ⟨23, by norm_num⟩,
      ⟨29, by norm_num⟩, ⟨61, by norm_num⟩, ⟨337, by norm_num⟩, ⟨1439, by norm_num⟩,
      ⟨2473, by norm_num⟩, ⟨7561, by norm_num⟩] (by decide +kernel)
  obtain ⟨r, hr, hnone, hsome⟩ := inverse_spec (P := P) (a := ⟨⟨#v[2]⟩⟩) hprime (by decide)
  cases r with
  | none => exact absurd (hnone.mp rfl) (by decide)
  | some b =>
    obtain ⟨hb, hmul, -⟩ := hsome b rfl
    exact ⟨P, by decide, by decide, b, hr, hb, hmul⟩

end Fp

end ContractsStylus
