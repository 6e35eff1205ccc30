import ContractsStylus.Crypto.Fp
import Mathlib.Data.BitVec
import Mathlib.FieldTheory.Finite.Basic
import Mathlib.Data.Nat.ModEq
import Mathlib.Tactic.LinearCombination
import Mathlib.Tactic.Zify

/-!
# Field arithmetic is arithmetic modulo the modulus

With `W` for `2 ^ (64 * N)`, a reduction of `T` gives a number whose product with `W` is `T` plus
a multiple of the modulus. Montgomery forms are compared after multiplication by `W`, which is
invertible modulo an odd number.

## One reduction

Every product is a reduction of a number of twice the limbs. The loop of the reduction adds a
multiple of the modulus in each pass that makes the lowest limb zero; its invariant is an equation
between numbers, of what has been added, what is left and the carry. From it comes the bound on the
result: less than twice the modulus, so that one subtraction is enough.

The result is stated as a congruence multiplied by `W` and not as a quotient, so that no inverse of
`W` has to be spoken of before the elements are a ring.

## Main definitions

* `Fp.Reduced` — Montgomery forms less than the modulus
* `Fp.toNat` — the integer an element stands for

## Main results

* `FpParams.INV_mul`, `FpParams.R_modEq`, `FpParams.R2_modEq` — the constants
* `Fp.wideningMontgomeryReduction_spec`, `Fp.montgomeryReduction_spec` — the two reductions
* `Fp.mul_spec`, `Fp.mul_lt` — the product, with or without a spare bit
* `Fp.arithmetic_mod` — every operation, on all reduced operands
-/

namespace ContractsStylus

open Limbs Uint

variable {N : ℕ} {P : FpParams N}

namespace FpParams

/-! ### Constants

The source computes `INV`, `R` and `R2` from the modulus by loops, at compile time. What the
reductions need of them is one equation each. -/

/-- The lowest limb of the modulus is odd. -/
theorem limb_odd (P : FpParams N) (hN : 0 < N) : P.MODULUS.limbs[0].toNat % 2 = 1 := by
  have h := P.MODULUS.toNat_mod hN
  have hodd := P.odd
  omega

theorem toNat_limb_pow (m : Limb) (n : ℕ) : (m ^ n).toNat = m.toNat ^ n % 2 ^ 64 := by
  induction n with
  | zero => rfl
  | succ n ih => rw [pow_succ, BitVec.toNat_mul, ih, Nat.mod_mul_mod, ← pow_succ]

/-- An odd limb to the power of the order of the units. -/
theorem pow_two_pow_63 {m : Limb} (hm : m.toNat % 2 = 1) : m ^ 2 ^ 63 = 1 := by
  have hcoprime : Nat.Coprime m.toNat (2 ^ 64) :=
    (Nat.coprime_two_right.mpr (Nat.odd_iff.mpr hm)).pow_right 64
  have htotient : Nat.totient (2 ^ 64) = 2 ^ 63 := by
    rw [Nat.totient_prime_pow_succ Nat.prime_two]
    norm_num
  have h := Nat.ModEq.pow_totient hcoprime
  rw [htotient] at h
  refine BitVec.eq_of_toNat_eq ?_
  rw [toNat_limb_pow]
  exact h

/-- **`INV` is minus the inverse of the modulus**, by squaring and multiplying 63 times. -/
theorem INV_mul (P : FpParams N) (hN : 0 < N) : P.INV * P.MODULUS.limbs[0] = -1 := by
  have hm := P.limb_odd hN
  rw [INV, inv]
  generalize P.MODULUS.limbs[0] = m at hm ⊢
  have hpow := fold_induction (fun i (inv : Limb) => inv * m = m ^ 2 ^ i)
    (f := fun _ (_ : _ < 63) inv => inv * inv * m) (s := (1 : Limb)) (n := 63)
    (by simp) fun i _ inv ih => by
      calc
        inv * inv * m * m = inv * m * (inv * m) := by ring
        _ = m ^ 2 ^ (i + 1) := by rw [ih, ← pow_add, pow_succ, mul_two]
  rw [neg_mul, hpow, pow_two_pow_63 hm]

/-- The modulus as a number, and `2 ^ (64 * N)`. -/
def p (P : FpParams N) : ℕ := P.MODULUS.toNat

def W (_ : FpParams N) : ℕ := 2 ^ (64 * N)

theorem p_lt_W (P : FpParams N) : P.p < P.W := P.MODULUS.toNat_lt

theorem p_pos (P : FpParams N) : 0 < P.p := Nat.zero_lt_of_lt P.one_lt

/-- `W` can be cancelled modulo the modulus. -/
theorem gcd_W (P : FpParams N) : Nat.gcd P.p P.W = 1 :=
  Nat.Coprime.pow_right _ (Nat.coprime_two_right.mpr (Nat.odd_iff.mpr P.odd))

/-- A remainder plus one does not overflow. -/
theorem rem_add_one (P : FpParams N) (x : WideUint N) :
    (((x.rem P.pos P.MODULUS).get (P.rem_isSome x)).wrappingAdd (ONE P.pos)).toNat =
      x.toNat % P.p + 1 := by
  obtain ⟨r, hr, hmod⟩ := x.rem_eq P.pos P.MODULUS P.p_pos.ne'
  have hadd := r.adc_spec (ONE P.pos) false
  have hlt := (r.wrappingAdd (ONE P.pos)).toNat_lt
  have hp := P.p_lt_W
  have hmod_lt : x.toNat % P.p < P.p := Nat.mod_lt _ P.p_pos
  simp only [hr, Option.get_some]
  rw [toNat_ONE, hmod, ← wrappingAdd, Bool.toNat_false, add_zero] at hadd
  rw [p, W] at *
  cases hc : (r.adc (ONE P.pos) false).2 <;>
    rw [hc] at hadd <;> simp only [Bool.toNat_true, Bool.toNat_false] at hadd <;> omega

theorem R_modEq (P : FpParams N) : P.R.toNat ≡ P.W [MOD P.p] := by
  have hmax := toNat_MAX (N := N)
  rw [R, P.rem_add_one, WideUint.toNat, toNat_ZERO, mul_zero, zero_add, W, ← hmax]
  exact (Nat.mod_modEq _ _).add_right 1

theorem R2_le (P : FpParams N) : P.R2.toNat ≤ P.p := by
  rw [R2, P.rem_add_one]
  exact Nat.mod_lt _ P.p_pos

theorem R2_modEq (P : FpParams N) : P.R2.toNat ≡ P.W * P.W [MOD P.p] := by
  have hmax := toNat_MAX (N := N)
  have hsquare : (WideUint.mk MAX MAX : WideUint N).toNat + 1 = P.W * P.W := by
    rw [WideUint.toNat, W, add_assoc, hmax, ← Nat.mul_add_one, hmax]
  rw [R2, P.rem_add_one, ← hsquare]
  exact (Nat.mod_modEq _ _).add_right 1

/-- **With a spare bit** twice the modulus fits the limbs. -/
theorem two_mul_le_of_spare (h : P.HAS_MODULUS_SPARE_BIT = true) : 2 * P.p ≤ P.W := by
  have hN := P.pos
  have hlimb := P.MODULUS.toNat_lt_of_limb_lt (i := N - 1) (k := 63) (by omega)
    (by rw [Nat.sub_add_cancel hN]; exact P.MODULUS.toNat_lt) ?_
  · rw [p, W, show 64 * N = 64 * (N - 1) + 63 + 1 by omega, pow_succ, mul_comm]
    exact Nat.mul_le_mul_right 2 hlimb.le
  · rw [HAS_MODULUS_SPARE_BIT, decide_eq_true_iff, ← BitVec.toNat_inj, BitVec.toNat_ushiftRight,
      Nat.shiftRight_eq_div_pow] at h
    exact Nat.lt_of_div_eq_zero (by norm_num) h

/-! ### The two reductions

One reduction has the number in two parts and moves through them; the other works in place and
rotates the limbs, so that its rounds look alike. Each has its own invariant, and both end in the
same kind of equation. It does not say which multiple of the modulus was added, only that it is less
than `W` times the modulus. -/

/-- **The multiple of the modulus that clears a limb**, and what is carried. -/
theorem mac_INV (P : FpParams N) (hN : 0 < N) (limb : Limb) :
    2 ^ 64 * (Limb.mac limb (limb * P.INV) P.MODULUS.limbs[0]).2.toNat =
      limb.toNat + (limb * P.INV).toNat * P.MODULUS.limbs[0].toNat := by
  have hmac := Limb.mac_spec limb (limb * P.INV) P.MODULUS.limbs[0]
  have hzero : (limb + limb * P.INV * P.MODULUS.limbs[0]).toNat = 0 := by
    rw [mul_assoc, P.INV_mul hN, mul_neg_one, add_neg_cancel]
    rfl
  have hlow := (Limb.mac limb (limb * P.INV) P.MODULUS.limbs[0]).1.isLt
  rw [BitVec.toNat_add, BitVec.toNat_mul _ P.MODULUS.limbs[0], Nat.add_mod_mod, ← hmac] at hzero
  omega

/-- The modulus, with its lowest limb split off. -/
theorem p_eq (P : FpParams N) (hN : 0 < N) :
    P.p = P.MODULUS.limbs[0].toNat +
      2 ^ 64 * positional (2 ^ 64) (fun j => digit P.MODULUS.limbs (j + 1)) (N - 1) := by
  rw [p, Uint.toNat, positional_low hN, digit_of_lt hN]

end FpParams

namespace Fp

/-- The limbs above the lowest `i` are a reduction of `T`, up to a multiple of the modulus: adding
`K * p` has cleared the limbs below. -/
def Cleared (P : FpParams N) (T i : ℕ) (s : (Limbs N × Limbs N) × Bool) : Prop :=
  ∃ K < (2 ^ 64) ^ i, wideValue s.1.1 s.1.2 + s.2.toNat * (2 ^ 64) ^ (N + i) =
    T + K * P.p + positional (2 ^ 64) (wideDigit s.1.1 s.1.2) i

/-- The multiples of the modulus that the rounds add stay small. -/
theorem add_mul_lt {K tmp i : ℕ} (hK : K < (2 ^ 64) ^ i) (htmp : tmp < 2 ^ 64) :
    K + tmp * (2 ^ 64) ^ i < (2 ^ 64) ^ (i + 1) := by
  calc
    K + tmp * (2 ^ 64) ^ i < (2 ^ 64) ^ i + tmp * (2 ^ 64) ^ i := Nat.add_lt_add_right hK _
    _ = (tmp + 1) * (2 ^ 64) ^ i := by ring
    _ ≤ 2 ^ 64 * (2 ^ 64) ^ i := Nat.mul_le_mul_right _ htmp
    _ = (2 ^ 64) ^ (i + 1) := (pow_succ' _ i).symm

/-- **One round** clears one more limb. -/
theorem Cleared.round {T i : ℕ} (hi : i < N) {s : (Limbs N × Limbs N) × Bool}
    (h : Cleared P T i s) : Cleared P T (i + 1) (wideningMontgomeryRound P i hi s) := by
  obtain ⟨⟨lo, hi'⟩, carry2⟩ := s
  obtain ⟨K, hK, hsum⟩ := h
  have hN := P.pos
  have hmac := P.mac_INV hN lo[i]
  rw [wideningMontgomeryRound]
  simp only at hsum ⊢
  generalize lo[i] * P.INV = tmp at hmac ⊢
  generalize (Limb.mac lo[i] tmp P.MODULUS.limbs[0]).2 = carry at hmac ⊢
  generalize ht : (N - 1).fold (fun j _ t =>
    carryingMacAt t.1.1 t.1.2 (i + 1 + j) (by omega) tmp P.MODULUS.limbs[j + 1] t.2)
    ((lo, hi'), carry) = t
  obtain ⟨⟨lo', hi''⟩, carry'⟩ := t
  obtain ⟨hframe, hrow⟩ := row_spec (by omega) tmp (fun j _ => P.MODULUS.limbs[j + 1])
    (fun j => digit P.MODULUS.limbs (j + 1)) (fun j hj => (digit_of_lt (by omega)).symm)
    lo hi' carry ht
  simp only at hframe hrow ⊢
  have hadc := Limb.adc_spec hi''[i] carry' carry2
  generalize Limb.adc hi''[i] carry' carry2 = r at hadc ⊢
  -- the carry out of the row and the pending one go to the next limb of the high part
  have hlast : wideDigit lo' hi'' (N + i) = hi''[i].toNat := by
    rw [wideDigit, if_neg (by omega), Nat.add_sub_cancel_left, digit_of_lt hi]
  have htop := positional_carry (b := 2 ^ 64) (d := wideDigit lo' hi'') (i := N + i) (n := N + N)
    (by omega) (hadc.trans (by rw [hlast]))
  rw [← wideDigit_set_hi hi] at htop
  have hlow : positional (2 ^ 64) (wideDigit lo' (hi''.set i r.1)) (i + 1) =
      positional (2 ^ 64) (wideDigit lo hi') i + lo[i].toNat * (2 ^ 64) ^ i := by
    rw [positional_congr (e := wideDigit lo hi'), positional_succ, wideDigit, if_pos hi,
      digit_of_lt hi]
    intro k hk
    rw [wideDigit_set_hi hi, Function.update_of_ne (by omega), hframe k (by omega)]
  refine ⟨K + tmp.toNat * (2 ^ 64) ^ i, add_mul_lt hK tmp.isLt, ?_⟩
  rw [show i + 1 + (N - 1) = N + i by omega] at hrow
  calc
    wideValue lo' (hi''.set i r.1) + r.2.toNat * (2 ^ 64) ^ (N + (i + 1)) =
        wideValue lo' hi'' + carry'.toNat * (2 ^ 64) ^ (N + i) +
          carry2.toNat * (2 ^ 64) ^ (N + i) := htop.trans (add_right_comm _ _ _)
    _ = wideValue lo hi' + carry2.toNat * (2 ^ 64) ^ (N + i) +
        (2 ^ 64 * carry.toNat + tmp.toNat * (2 ^ 64 *
          positional (2 ^ 64) (fun j => digit P.MODULUS.limbs (j + 1)) (N - 1))) *
            (2 ^ 64) ^ i := by
      rw [hrow, pow_succ (2 ^ 64) i]
      ring
    _ = _ := by
      rw [hsum, hmac, hlow, P.p_eq hN]
      ring

/-- **The reduction of a number of twice the size**, with the carry out of its high part. -/
theorem wideningMontgomeryReduction_spec (lo hi : Uint N) :
    ∃ K < P.W, P.W * ((wideningMontgomeryReduction P lo hi).2.toNat +
        P.W * (wideningMontgomeryReduction P lo hi).1.toNat) =
      lo.toNat + P.W * hi.toNat + K * P.p := by
  have hcleared := fold_induction (Cleared P (lo.toNat + P.W * hi.toNat)) (n := N)
    (f := wideningMontgomeryRound P) (s := ((lo.limbs, hi.limbs), false)) ?_
    fun i hi s h => h.round hi
  · rw [wideningMontgomeryReduction]
    generalize N.fold (wideningMontgomeryRound P) ((lo.limbs, hi.limbs), false) = s at hcleared ⊢
    obtain ⟨⟨lo', hi'⟩, carry2⟩ := s
    obtain ⟨K, hK, hsum⟩ := hcleared
    have hlow : positional (2 ^ 64) (wideDigit lo' hi') N = (⟨lo'⟩ : Uint N).toNat :=
      positional_congr fun k hk => if_pos hk
    rw [pow_base] at hK
    refine ⟨K, hK, ?_⟩
    simp only [wideValue_eq, hlow, pow_add, pow_base] at hsum ⊢
    refine Nat.add_right_cancel (m := (⟨lo'⟩ : Uint N).toNat) ?_
    rw [← hsum, FpParams.W]
    ring
  · refine ⟨0, Nat.one_pos, ?_⟩
    rw [wideValue_eq]
    simp [FpParams.W]

/-- Different limbs have different places when the limbs rotate. -/
theorem rotate_ne {a b i : ℕ} (ha : a < N) (hb : b < N) (hab : a ≠ b) :
    (a + i) % N ≠ (b + i) % N := by
  intro h
  exact hab ((Nat.ModEq.add_right_cancel' i h).eq_of_lt_of_lt ha hb)

/-- The limbs, rotated by `i`, are a reduction of `T` by `i` limbs. -/
def Rotated (P : FpParams N) (T i : ℕ) (limbs : Limbs N) : Prop :=
  ∃ K < (2 ^ 64) ^ i,
    (2 ^ 64) ^ i * positional (2 ^ 64) (fun k => digit limbs ((k + i) % N)) N = T + K * P.p

/-- Above the lowest limb, the first `j` of the rotated limbs have `tmp * p` added to them. -/
structure RotatedRow (P : FpParams N) (i : ℕ) (limbs : Limbs N) (tmp carry : Limb) (j : ℕ)
    (t : Limbs N × Limb) : Prop where
  /-- The limbs that the row has not reached are as before. -/
  frame : ∀ k < N, k = 0 ∨ j < k → digit t.1 ((k + i) % N) = digit limbs ((k + i) % N)
  /-- The limbs that it has reached hold the sum, up to the carry. -/
  value : positional (2 ^ 64) (fun k => digit t.1 ((k + 1 + i) % N)) j +
      t.2.toNat * (2 ^ 64) ^ j =
    positional (2 ^ 64) (fun k => digit limbs ((k + 1 + i) % N) +
      tmp.toNat * digit P.MODULUS.limbs (k + 1)) j + carry.toNat

/-- One limb is added to a row. -/
theorem RotatedRow.mac {i j : ℕ} {limbs : Limbs N} {tmp carry : Limb} {t : Limbs N × Limb}
    (h : RotatedRow P i limbs tmp carry j t) (hj : j + 1 < N) (hJ : (j + 1 + i) % N < N)
    {r : Limb × Limb} (hr : r.1.toNat + 2 ^ 64 * r.2.toNat =
      digit t.1 ((j + 1 + i) % N) + tmp.toNat * digit P.MODULUS.limbs (j + 1) + t.2.toNat) :
    RotatedRow P i limbs tmp carry (j + 1) (t.1.set ((j + 1 + i) % N) r.1, r.2) := by
  rw [h.frame (j + 1) hj (by omega)] at hr
  refine ⟨?_, ?_⟩
  · intro k hk hk'
    rw [digit_set_of_ne hJ (rotate_ne hk hj (by omega))]
    exact h.frame k hk (by omega)
  · have hlow : positional (2 ^ 64) (fun k => digit (t.1.set ((j + 1 + i) % N) r.1)
        ((k + 1 + i) % N)) j = positional (2 ^ 64) (fun k => digit t.1 ((k + 1 + i) % N)) j :=
      positional_congr fun k hk => digit_set_of_ne hJ (rotate_ne (by omega) hj (by omega))
    rw [positional_succ, positional_succ, hlow, digit_of_lt hJ, Vector.getElem_set_self]
    calc
      _ = positional (2 ^ 64) (fun k => digit t.1 ((k + 1 + i) % N)) j +
          (r.1.toNat + 2 ^ 64 * r.2.toNat) * (2 ^ 64) ^ j := by
        rw [pow_succ (2 ^ 64) j]
        ring
      _ = positional (2 ^ 64) (fun k => digit t.1 ((k + 1 + i) % N)) j +
          t.2.toNat * (2 ^ 64) ^ j + (digit limbs ((j + 1 + i) % N) +
            tmp.toNat * digit P.MODULUS.limbs (j + 1)) * (2 ^ 64) ^ j := by
        rw [hr]
        ring
      _ = _ := by
        rw [h.value]
        ring

/-- **One round in place** shifts the limbs down by one. -/
theorem Rotated.round {T i : ℕ} (hi : i < N) {limbs : Limbs N} (h : Rotated P T i limbs) :
    Rotated P T (i + 1) (montgomeryRound P i hi limbs) := by
  obtain ⟨K, hK, hsum⟩ := h
  have hN := P.pos
  have hmac := P.mac_INV hN limbs[i]
  rw [montgomeryRound]
  simp only
  generalize limbs[i] * P.INV = tmp at hmac ⊢
  generalize (Limb.mac limbs[i] tmp P.MODULUS.limbs[0]).2 = carry at hmac ⊢
  have hrow := fold_induction (RotatedRow P i limbs tmp carry) (n := N - 1) (s := (limbs, carry))
    (f := fun j _ (t : Limbs N × Limb) =>
      have : (j + 1 + i) % N < N := Nat.mod_lt _ hN
      let r := Limb.carryingMac t.1[(j + 1 + i) % N] tmp P.MODULUS.limbs[j + 1] t.2
      (t.1.set ((j + 1 + i) % N) r.1, r.2))
    ⟨fun _ _ _ => rfl, by simp⟩ ?_
  · generalize (N - 1).fold _ (limbs, carry) = t at hrow ⊢
    obtain ⟨t, c⟩ := t
    have hvalue := hrow.value
    simp only at hvalue ⊢
    have hI : i % N < N := Nat.mod_lt _ hN
    have hhigh : digit (t.set (i % N) c) ((N - 1 + (i + 1)) % N) = c.toNat := by
      rw [show N - 1 + (i + 1) = i + N by omega, Nat.add_mod_right, digit_of_lt hI,
        Vector.getElem_set_self]
    have hlow : positional (2 ^ 64) (fun k => digit (t.set (i % N) c) ((k + (i + 1)) % N))
        (N - 1) = positional (2 ^ 64) (fun k => digit t ((k + 1 + i) % N)) (N - 1) := by
      refine positional_congr fun k hk => ?_
      have hne := rotate_ne (a := k + 1) (b := 0) (i := i) (by omega) hN (by omega)
      rw [zero_add] at hne
      rw [show k + (i + 1) = k + 1 + i by omega, digit_set_of_ne hI hne]
    refine ⟨K + tmp.toNat * (2 ^ 64) ^ i, add_mul_lt hK tmp.isLt, ?_⟩
    have hsplit : ∀ d : ℕ → ℕ, positional (2 ^ 64) d N =
        positional (2 ^ 64) d (N - 1) + d (N - 1) * (2 ^ 64) ^ (N - 1) := fun d => by
      rw [← positional_succ, Nat.sub_add_cancel hN]
    rw [positional_low hN, zero_add, Nat.mod_eq_of_lt hi, digit_of_lt hi] at hsum
    calc
      _ = (2 ^ 64) ^ i * (2 ^ 64 * (positional (2 ^ 64) (fun k => digit t ((k + 1 + i) % N))
            (N - 1) + c.toNat * (2 ^ 64) ^ (N - 1))) := by
        rw [hsplit, hlow, hhigh]
        ring
      _ = (2 ^ 64) ^ i * (2 ^ 64 * positional (2 ^ 64) (fun k => digit limbs ((k + 1 + i) % N))
            (N - 1) + tmp.toNat * (2 ^ 64 *
            positional (2 ^ 64) (fun k => digit P.MODULUS.limbs (k + 1)) (N - 1)) +
            2 ^ 64 * carry.toNat) := by
        rw [hvalue, positional_sum, positional_mul]
        ring
      _ = (2 ^ 64) ^ i * (limbs[i].toNat +
            2 ^ 64 * positional (2 ^ 64) (fun k => digit limbs ((k + 1 + i) % N)) (N - 1)) +
            tmp.toNat * (2 ^ 64) ^ i * P.p := by
        rw [hmac, P.p_eq hN]
        ring
      _ = _ := by
        rw [hsum]
        ring
  · rintro j hj t hrow
    have hJ : (j + 1 + i) % N < N := Nat.mod_lt _ hN
    have hj' : j + 1 < N := by omega
    refine hrow.mac hj' hJ ?_
    rw [digit_of_lt hJ, digit_of_lt hj']
    exact Limb.carryingMac_spec _ _ _ _

/-- **The reduction in place.** -/
theorem montgomeryReduction_spec (a : Fp P) :
    ∃ K < P.W, P.W * a.montgomeryReduction.toNat = a.montgomeryForm.toNat + K * P.p := by
  have hrotated := fold_induction (Rotated P a.montgomeryForm.toNat) (n := N)
    (f := montgomeryRound P) (s := a.montgomeryForm.limbs) ?_ fun i hi s h => h.round hi
  · obtain ⟨K, hK, hsum⟩ := hrotated
    rw [pow_base] at hK hsum
    refine ⟨K, hK, ?_⟩
    rw [← hsum, montgomeryReduction, Uint.toNat]
    refine congrArg _ (positional_congr fun k hk => ?_)
    rw [Nat.add_mod_right, Nat.mod_eq_of_lt hk]
  · refine ⟨0, Nat.one_pos, ?_⟩
    rw [pow_zero, one_mul, zero_mul, add_zero, Uint.toNat]
    refine positional_congr fun k hk => ?_
    rw [add_zero, Nat.mod_eq_of_lt hk]

/-! ### The number an element stands for

`intoBigint` is a reduction as well. What an element stands for is the only number below the modulus
that gives its Montgomery form when multiplied by `W`. -/

/-- A Montgomery form less than the modulus. -/
def Reduced (a : Fp P) : Prop := a.montgomeryForm.toNat < P.p

instance instDecidableReduced (a : Fp P) : Decidable a.Reduced :=
  inferInstanceAs (Decidable (_ < _))

/-- **What an element stands for**, times `W`, is its Montgomery form. -/
theorem intoBigint_modEq (a : Fp P) :
    P.W * a.intoBigint.toNat ≡ a.montgomeryForm.toNat [MOD P.p] := by
  obtain ⟨K, -, hsum⟩ := a.montgomeryReduction_spec
  rw [intoBigint, hsum]
  exact Nat.ModEq.symm (Nat.left_modEq_add_iff.mpr (Dvd.intro_left K rfl))

theorem intoBigint_lt {a : Fp P} (ha : a.Reduced) : a.intoBigint.toNat < P.p := by
  obtain ⟨K, hK, hsum⟩ := a.montgomeryReduction_spec
  rw [Reduced] at ha
  refine Nat.lt_of_mul_lt_mul_left (a := P.W) ?_
  calc
    P.W * a.intoBigint.toNat = a.montgomeryForm.toNat + K * P.p := hsum
    _ < P.p + K * P.p := Nat.add_lt_add_right ha _
    _ = (K + 1) * P.p := by ring
    _ ≤ P.W * P.p := Nat.mul_le_mul_right _ hK

/-- **An integer is the one an element stands for** when it is, up to a multiple of the modulus,
the Montgomery form divided by `W`. -/
theorem intoBigint_eq {a : Fp P} (ha : a.Reduced) {n : ℕ}
    (h : a.montgomeryForm.toNat ≡ P.W * n [MOD P.p]) : a.intoBigint.toNat = n % P.p := by
  have hmod : a.intoBigint.toNat ≡ n [MOD P.p] :=
    Nat.ModEq.cancel_left_of_coprime P.gcd_W (a.intoBigint_modEq.trans h)
  rw [← hmod, Nat.mod_eq_of_lt (intoBigint_lt ha)]

/-! ### Products

With a spare bit the source leaves out the carry, since there is none. The bound on the factors is
on their product, so that one of them may be any limbs; this is what lets `fromBigint` take integers
that are not reduced. -/

/-- The two ways to reduce once agree: with a spare bit there is no carry. -/
theorem toNat_condSubtract {x : Uint N} {carry : Bool} {v : ℕ}
    (hv : x.toNat + P.W * carry.toNat = v) (hlt : v < 2 * P.p) :
    (if P.HAS_MODULUS_SPARE_BIT = true then subtractModulus (P := P) ⟨x⟩
      else carryingSubModulus (P := P) ⟨x⟩ carry).montgomeryForm.toNat = v % P.p := by
  have happly : ∀ c : Bool, (if c = true then (⟨x.wrappingSub P.MODULUS⟩ : Fp P)
      else ⟨x⟩).montgomeryForm = if c = true then (x.checkedSub P.MODULUS).1 else x := by
    intro c
    cases c <;> rfl
  split
  · rename_i hspare
    have hno : carry = false := by
      have hfit := P.two_mul_le_of_spare hspare
      cases carry with
      | false => rfl
      | true =>
        rw [Bool.toNat_true] at hv
        omega
    subst hno
    rw [subtractModulus, happly]
    refine toNat_reduce hv hlt ?_
    rw [isGeModulus, ← ge_or_carry_iff hv]
    simp
  · rw [carryingSubModulus, happly]
    refine toNat_reduce hv hlt ?_
    rw [Bool.or_eq_true, isGeModulus, or_comm]
    exact ge_or_carry_iff hv

/-- **The Montgomery product**, for factors whose product is less than `W` times the modulus. -/
theorem mul_spec (a b : Fp P)
    (h : a.montgomeryForm.toNat * b.montgomeryForm.toNat < P.W * P.p) :
    (mul a b).Reduced ∧ P.W * (mul a b).montgomeryForm.toNat ≡
      a.montgomeryForm.toNat * b.montgomeryForm.toNat [MOD P.p] := by
  obtain ⟨K, hK, hsum⟩ := wideningMontgomeryReduction_spec (P := P)
    (a.montgomeryForm.wideningMul b.montgomeryForm).1
    (a.montgomeryForm.wideningMul b.montgomeryForm).2
  have hprod : (a.montgomeryForm.wideningMul b.montgomeryForm).1.toNat +
      P.W * (a.montgomeryForm.wideningMul b.montgomeryForm).2.toNat =
        a.montgomeryForm.toNat * b.montgomeryForm.toNat := wideningMul_spec _ _
  rw [hprod] at hsum
  rw [mul, mulWithoutCondSubtract]
  simp only [newUnchecked]
  generalize wideningMontgomeryReduction P (a.montgomeryForm.wideningMul b.montgomeryForm).1
    (a.montgomeryForm.wideningMul b.montgomeryForm).2 = r at hsum ⊢
  have hlt : r.2.toNat + P.W * r.1.toNat < 2 * P.p := by
    refine Nat.lt_of_mul_lt_mul_left (a := P.W) ?_
    calc
      P.W * (r.2.toNat + P.W * r.1.toNat) < P.W * P.p + K * P.p := by
        rw [hsum]
        exact Nat.add_lt_add_right h _
      _ ≤ P.W * P.p + P.W * P.p := Nat.add_le_add_left (Nat.mul_le_mul_right _ hK.le) _
      _ = P.W * (2 * P.p) := by ring
  have hmod := toNat_condSubtract rfl hlt
  rw [Reduced, hmod]
  refine ⟨Nat.mod_lt _ P.p_pos, ?_⟩
  calc
    P.W * ((r.2.toNat + P.W * r.1.toNat) % P.p) ≡ P.W * (r.2.toNat + P.W * r.1.toNat)
        [MOD P.p] := (Nat.mod_modEq _ _).mul_left _
    _ = a.montgomeryForm.toNat * b.montgomeryForm.toNat + K * P.p := hsum
    _ ≡ a.montgomeryForm.toNat * b.montgomeryForm.toNat [MOD P.p] :=
      Nat.ModEq.symm (Nat.left_modEq_add_iff.mpr (Dvd.intro_left K rfl))

/-- Reduced factors are small enough. -/
theorem mul_lt {a b : Fp P} (hb : b.montgomeryForm.toNat ≤ P.p) :
    a.montgomeryForm.toNat * b.montgomeryForm.toNat < P.W * P.p :=
  (Nat.mul_le_mul_left _ hb).trans_lt
    (Nat.mul_lt_mul_of_pos_right a.montgomeryForm.toNat_lt P.p_pos)

theorem Reduced.mul (a : Fp P) {b : Fp P} (hb : b.Reduced) : (mul a b).Reduced :=
  (mul_spec a b (mul_lt hb.le)).1

/-- **Multiplication** of what the elements stand for. -/
theorem intoBigint_mul (a : Fp P) {b : Fp P} (hb : b.Reduced) :
    (Fp.mul a b).intoBigint.toNat = a.intoBigint.toNat * b.intoBigint.toNat % P.p := by
  obtain ⟨hreduced, hmul⟩ := mul_spec a b (mul_lt hb.le)
  refine intoBigint_eq hreduced ?_
  refine Nat.ModEq.cancel_left_of_coprime P.gcd_W (hmul.trans ?_)
  calc
    a.montgomeryForm.toNat * b.montgomeryForm.toNat ≡
        P.W * a.intoBigint.toNat * (P.W * b.intoBigint.toNat) [MOD P.p] :=
      (a.intoBigint_modEq.mul b.intoBigint_modEq).symm
    _ = P.W * (P.W * (a.intoBigint.toNat * b.intoBigint.toNat)) := by ring

/-! ### Conversions -/

/-- The product with `R2`, of any limbs. -/
theorem mul_R2_spec (x : Uint N) :
    (mul (newUnchecked x) (newUnchecked P.R2) : Fp P).Reduced ∧
      P.W * (mul (newUnchecked x) (newUnchecked P.R2) : Fp P).montgomeryForm.toNat ≡
        x.toNat * P.R2.toNat [MOD P.p] :=
  mul_spec (newUnchecked x) (newUnchecked P.R2) (mul_lt P.R2_le)

theorem reduced_fromBigint (x : Uint N) : (fromBigint x : Fp P).Reduced := by
  rw [fromBigint]
  split
  · rename_i hzero
    rw [isZero, isZero_iff] at hzero
    rw [Reduced, hzero]
    exact P.p_pos
  · exact (mul_R2_spec x).1

/-- **From an integer**, reduced or not, and back. -/
theorem intoBigint_fromBigint (x : Uint N) :
    (fromBigint x : Fp P).intoBigint.toNat = x.toNat % P.p := by
  refine intoBigint_eq (reduced_fromBigint x) ?_
  rw [fromBigint]
  split
  · rename_i hzero
    rw [isZero, isZero_iff] at hzero
    have hx : x.toNat = 0 := hzero
    rw [hzero, hx, mul_zero]
  · refine Nat.ModEq.cancel_left_of_coprime P.gcd_W ((mul_R2_spec x).2.trans ?_)
    calc
      x.toNat * P.R2.toNat ≡ x.toNat * (P.W * P.W) [MOD P.p] := P.R2_modEq.mul_left _
      _ = P.W * (P.W * x.toNat) := by ring

/-! ### Sums and differences

Sums are computed on Montgomery forms. These are `W` times what the elements stand for, up to
multiples of the modulus, and `W` is cancelled at the end. -/

variable {a b : Fp P}

theorem montgomeryForm_addAssign (ha : a.Reduced) (hb : b.Reduced) :
    (addAssign a b).montgomeryForm.toNat =
      (a.montgomeryForm.toNat + b.montgomeryForm.toNat) % P.p := by
  have hsum := a.montgomeryForm.checkedAddAssign_spec b.montgomeryForm
  rw [Reduced] at ha hb
  rw [addAssign]
  exact toNat_condSubtract hsum (by omega)

theorem montgomeryForm_doubleInPlace (ha : a.Reduced) :
    (doubleInPlace a).montgomeryForm.toNat = 2 * a.montgomeryForm.toNat % P.p := by
  have hsum := a.montgomeryForm.checkedMul2_spec
  rw [Reduced] at ha
  rw [doubleInPlace]
  exact toNat_condSubtract hsum (by omega)

theorem montgomeryForm_subAssign (ha : a.Reduced) (hb : b.Reduced) :
    (subAssign a b).montgomeryForm.toNat =
      (a.montgomeryForm.toNat + (P.p - b.montgomeryForm.toNat)) % P.p := by
  have hW : P.p < 2 ^ (64 * N) := P.p_lt_W
  rw [Reduced] at ha hb
  rw [subAssign, cmp_eq]
  split
  · rename_i h
    have hlt := Nat.compare_eq_gt.mp h
    have hadd : _ = a.montgomeryForm.toNat + P.p :=
      a.montgomeryForm.checkedAddAssign_spec P.MODULUS
    rw [Nat.mod_eq_of_lt (by omega), ← Nat.add_sub_assoc hb.le]
    exact toNat_checkedSubAssign hadd (by omega) (by omega)
  · rename_i h
    have hle : b.montgomeryForm.toNat ≤ a.montgomeryForm.toNat :=
      not_lt.mp fun hlt => h (Nat.compare_eq_gt.mpr hlt)
    rw [show a.montgomeryForm.toNat + (P.p - b.montgomeryForm.toNat) =
      a.montgomeryForm.toNat - b.montgomeryForm.toNat + P.p by omega, Nat.add_mod_right,
      Nat.mod_eq_of_lt (by omega)]
    exact toNat_checkedSubAssign_of_le hle

theorem montgomeryForm_negInPlace (ha : a.Reduced) :
    (negInPlace a).montgomeryForm.toNat = (P.p - a.montgomeryForm.toNat) % P.p := by
  have hW : P.p < 2 ^ (64 * N) := P.p_lt_W
  rw [Reduced] at ha
  rw [negInPlace]
  split
  · rename_i hzero
    rw [isZero, isZero_iff] at hzero
    rw [hzero, Nat.sub_zero, Nat.mod_self]
  · rename_i hzero
    have hne : a.montgomeryForm.toNat ≠ 0 := fun h => hzero (isZero_iff.mpr h)
    rw [Nat.mod_eq_of_lt (by omega)]
    exact P.MODULUS.toNat_checkedSubAssign_of_le ha.le

/-- The form of what is missing to the modulus. -/
theorem sub_modEq (hb : b.Reduced) :
    P.p - b.montgomeryForm.toNat ≡ P.W * (P.p - b.intoBigint.toNat) [MOD P.p] := by
  refine Nat.ModEq.add_right_cancel b.intoBigint_modEq.symm ?_
  rw [Nat.sub_add_cancel hb.le, ← Nat.mul_add, Nat.sub_add_cancel (intoBigint_lt hb).le]
  exact (Nat.modEq_zero_iff_dvd.mpr dvd_rfl).trans
    (Nat.modEq_zero_iff_dvd.mpr (dvd_mul_left _ _)).symm

theorem intoBigint_addAssign (ha : a.Reduced) (hb : b.Reduced) :
    (addAssign a b).Reduced ∧
      (addAssign a b).intoBigint.toNat = (a.intoBigint.toNat + b.intoBigint.toNat) % P.p := by
  have hform := montgomeryForm_addAssign ha hb
  have hreduced : (addAssign a b).Reduced := by
    rw [Reduced, hform]
    exact Nat.mod_lt _ P.p_pos
  refine ⟨hreduced, intoBigint_eq hreduced ?_⟩
  rw [hform, mul_add]
  exact (Nat.mod_modEq _ _).trans (a.intoBigint_modEq.add b.intoBigint_modEq).symm

theorem intoBigint_doubleInPlace (ha : a.Reduced) :
    (doubleInPlace a).Reduced ∧
      (doubleInPlace a).intoBigint.toNat = 2 * a.intoBigint.toNat % P.p := by
  have hform := montgomeryForm_doubleInPlace ha
  have hreduced : (doubleInPlace a).Reduced := by
    rw [Reduced, hform]
    exact Nat.mod_lt _ P.p_pos
  refine ⟨hreduced, intoBigint_eq hreduced ?_⟩
  rw [hform, mul_left_comm]
  exact (Nat.mod_modEq _ _).trans (a.intoBigint_modEq.mul_left 2).symm

theorem intoBigint_subAssign (ha : a.Reduced) (hb : b.Reduced) :
    (subAssign a b).Reduced ∧ ((subAssign a b).intoBigint.toNat : ℤ) =
      ((a.intoBigint.toNat : ℤ) - b.intoBigint.toNat) % P.p := by
  have hform := montgomeryForm_subAssign ha hb
  have hreduced : (subAssign a b).Reduced := by
    rw [Reduced, hform]
    exact Nat.mod_lt _ P.p_pos
  refine ⟨hreduced, ?_⟩
  rw [intoBigint_eq hreduced (n := a.intoBigint.toNat + (P.p - b.intoBigint.toNat)) ?_]
  · rw [Int.natCast_mod, Nat.cast_add, Nat.cast_sub (intoBigint_lt hb).le,
      show (a.intoBigint.toNat : ℤ) + ((P.p : ℤ) - b.intoBigint.toNat) =
        (a.intoBigint.toNat : ℤ) - b.intoBigint.toNat + P.p by ring, Int.add_emod_right]
  · rw [hform, mul_add]
    exact (Nat.mod_modEq _ _).trans (a.intoBigint_modEq.symm.add (sub_modEq hb))

theorem intoBigint_negInPlace (ha : a.Reduced) :
    (negInPlace a).Reduced ∧
      ((negInPlace a).intoBigint.toNat : ℤ) = -(a.intoBigint.toNat : ℤ) % P.p := by
  have hform := montgomeryForm_negInPlace ha
  have hreduced : (negInPlace a).Reduced := by
    rw [Reduced, hform]
    exact Nat.mod_lt _ P.p_pos
  refine ⟨hreduced, ?_⟩
  rw [intoBigint_eq hreduced (n := P.p - a.intoBigint.toNat) ?_]
  · rw [Int.natCast_mod, Nat.cast_sub (intoBigint_lt ha).le, sub_eq_neg_add, Int.add_emod_right]
  · rw [hform]
    exact (Nat.mod_modEq _ _).trans (sub_modEq ha)

/-- The negation in constants does without writing in place, and is the same. -/
theorem neg_eq (a : Fp P) : a.neg = a.negInPlace := by
  rw [neg, negInPlace]
  split
  · rfl
  · have h1 := P.MODULUS.checkedSub_spec a.montgomeryForm
    have h2 := P.MODULUS.checkedSubAssign_spec a.montgomeryForm
    have hlt1 := (P.MODULUS.checkedSub a.montgomeryForm).1.toNat_lt
    have hlt2 := (P.MODULUS.checkedSubAssign a.montgomeryForm).1.toNat_lt
    refine congrArg newUnchecked (toNat_inj.mp ?_)
    cases hb1 : (P.MODULUS.checkedSub a.montgomeryForm).2 <;>
      cases hb2 : (P.MODULUS.checkedSubAssign a.montgomeryForm).2 <;>
      simp only [hb1, hb2, Bool.toNat_true, Bool.toNat_false] at h1 h2 <;> omega

/-- **Field arithmetic is arithmetic modulo the modulus**, for every number of limbs and every odd
modulus that fits them. On reduced Montgomery forms the operations give reduced Montgomery forms,
and what these stand for is the sum, the difference and so on of what the operands stand for; and
every integer, reduced or not, becomes an element that stands for its remainder. -/
theorem arithmetic_mod {N : ℕ} {P : FpParams N} {a b : Fp P} (ha : a.Reduced) (hb : b.Reduced) :
    ((addAssign a b).Reduced ∧ (addAssign a b).intoBigint.toNat =
      (a.intoBigint.toNat + b.intoBigint.toNat) % P.MODULUS.toNat) ∧
    ((subAssign a b).Reduced ∧ ((subAssign a b).intoBigint.toNat : ℤ) =
      ((a.intoBigint.toNat : ℤ) - b.intoBigint.toNat) % P.MODULUS.toNat) ∧
    ((negInPlace a).Reduced ∧ ((negInPlace a).intoBigint.toNat : ℤ) =
      -(a.intoBigint.toNat : ℤ) % P.MODULUS.toNat) ∧
    ((doubleInPlace a).Reduced ∧ (doubleInPlace a).intoBigint.toNat =
      2 * a.intoBigint.toNat % P.MODULUS.toNat) ∧
    ((mulAssign a b).Reduced ∧ (mulAssign a b).intoBigint.toNat =
      a.intoBigint.toNat * b.intoBigint.toNat % P.MODULUS.toNat) ∧
    ((squareInPlace a).Reduced ∧ (squareInPlace a).intoBigint.toNat =
      a.intoBigint.toNat ^ 2 % P.MODULUS.toNat) ∧
    ∀ x : Uint N, (fromBigint x : Fp P).Reduced ∧
      (fromBigint x : Fp P).intoBigint.toNat = x.toNat % P.MODULUS.toNat := by
  refine ⟨intoBigint_addAssign ha hb, intoBigint_subAssign ha hb, intoBigint_negInPlace ha,
    intoBigint_doubleInPlace ha, ⟨.mul a hb, intoBigint_mul a hb⟩, ⟨.mul a ha, ?_⟩,
    fun x => ⟨reduced_fromBigint x, intoBigint_fromBigint x⟩⟩
  rw [pow_two]
  exact intoBigint_mul a ha

/-- Modulo the largest prime below `2 ^ 64`, which has no spare bit. -/
theorem arithmetic_mod_no_spare :
    ∃ P : FpParams 1, P.MODULUS.toNat = 18446744073709551557 ∧ P.HAS_MODULUS_SPARE_BIT = false ∧
      ∃ a b : Fp P, a.Reduced ∧ b.Reduced ∧ (addAssign a b).intoBigint.toNat =
        (a.intoBigint.toNat + b.intoBigint.toNat) % P.MODULUS.toNat := by
  let P : FpParams 1 := ⟨⟨#v[18446744073709551557]⟩, by decide, by decide⟩
  have ha : (⟨⟨#v[18446744073709551556]⟩⟩ : Fp P).Reduced := by decide
  have hb : (⟨⟨#v[18446744073709551500]⟩⟩ : Fp P).Reduced := by decide
  exact ⟨P, by decide, by decide, _, _, ha, hb, (arithmetic_mod ha hb).1.2⟩

end Fp

end ContractsStylus
