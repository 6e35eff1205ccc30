import ContractsStylus.Crypto.Uint
import Mathlib.Tactic.LinearCombination
import Mathlib.Tactic.Zify

/-!
# Big integers compute with numbers

Each operation on limbs is described by what it does to the numbers that the limbs stand for.
Sums and differences come with the carry out of the highest limb.

## Numbers from limbs

`toNat` is a sum of limbs with weights. A loop from the lowest limb to the highest is described by
the sum of the limbs that it has passed, so the invariants are equations between such partial sums
and the carry. `carryLoop_spec` has the induction for every such loop, given what one step does;
sums, differences and doubling are its instances.

The remainder goes bit by bit from the top, and doubles a number that is less than the divisor. The
double may have one bit more than there is room for, and the carry is a part of the comparison.

## Main results

* `Uint.toNat_lt`, `Uint.toNat_inj` — the numbers below `2 ^ (64 * N)`
* `Uint.ge_iff`, `Uint.cmp_eq`, `Uint.getBit_eq` — comparisons and bits
* `Uint.carryLoop_spec` — the loops with a carry, in general
* `Uint.toNat_div2Assign` — halving
* `Uint.wideningMul_spec` — the product is exact
* `WideUint.rem_eq`, `WideUint.rem_mk` — the remainder
-/

namespace ContractsStylus

namespace Limbs

variable {N : ℕ} {limbs : Limbs N} {limb : Limb} {i : ℕ}

theorem digit_of_lt (hi : i < N) : digit limbs i = limbs[i].toNat := dif_pos hi

theorem digit_lt : digit limbs i < 2 ^ 64 := by
  rw [digit]
  split
  · exact BitVec.isLt _
  · norm_num

theorem digit_set (hi : i < N) :
    digit (limbs.set i limb) = Function.update (digit limbs) i limb.toNat := by
  funext j
  by_cases hj : j < N
  · rw [digit_of_lt hj, Vector.getElem_set]
    by_cases hij : i = j
    · rw [if_pos hij, ← hij, Function.update_self]
    · rw [if_neg hij, Function.update_of_ne (Ne.symm hij), digit_of_lt hj]
  · rw [digit, dif_neg hj, Function.update_of_ne (by omega), digit, dif_neg hj]

theorem digit_set_of_ne {j : ℕ} (hi : i < N) (hij : j ≠ i) :
    digit (limbs.set i limb) j = digit limbs j := by
  rw [digit_set hi, Function.update_of_ne hij]

/-- The `k`-th digit of a number of twice the size. -/
def wideDigit (lo hi : Limbs N) (k : ℕ) : ℕ := if k < N then digit lo k else digit hi (k - N)

theorem wideDigit_set_lo {lo hi : Limbs N} (hk : i < N) :
    wideDigit (lo.set i limb) hi = Function.update (wideDigit lo hi) i limb.toNat := by
  funext k
  by_cases hki : k = i
  · rw [hki, Function.update_self, wideDigit, if_pos hk, digit_set hk, Function.update_self]
  · rw [Function.update_of_ne hki, wideDigit, wideDigit, digit_set_of_ne hk hki]

theorem wideDigit_set_hi {lo hi : Limbs N} (hk : i < N) :
    wideDigit lo (hi.set i limb) = Function.update (wideDigit lo hi) (N + i) limb.toNat := by
  funext k
  by_cases hki : k = N + i
  · rw [hki, Function.update_self, wideDigit, if_neg (by omega), Nat.add_sub_cancel_left,
      digit_set hk, Function.update_self]
  · rw [Function.update_of_ne hki, wideDigit, wideDigit]
    split
    · rfl
    · rw [digit_set_of_ne hk (by omega)]

/-- The number that a low part and a high part stand for. -/
def wideValue (lo hi : Limbs N) : ℕ := positional (2 ^ 64) (wideDigit lo hi) (N + N)

theorem wideValue_eq (lo hi : Limbs N) :
    wideValue lo hi = (⟨lo⟩ : Uint N).toNat + 2 ^ (64 * N) * (⟨hi⟩ : Uint N).toNat := by
  rw [wideValue, positional_add, pow_mul]
  refine congrArg₂ (· + ·) ?_ (congrArg _ ?_)
  · exact positional_congr fun k hk => if_pos hk
  · refine positional_congr fun k _ => ?_
    rw [wideDigit, if_neg (by omega), Nat.add_sub_cancel_left]

end Limbs

namespace Uint

open Limbs

variable {N : ℕ} {a b rhs : Uint N}

/-! ### The numbers

The limbs are digits to the base `2 ^ 64`, and what is known of positional numbers is used through
`digit`. -/

theorem pow_base (N : ℕ) : (2 ^ 64) ^ N = 2 ^ (64 * N) := (pow_mul 2 64 N).symm

theorem toNat_lt (a : Uint N) : a.toNat < 2 ^ (64 * N) := by
  rw [← pow_base]
  exact positional_lt fun _ _ => digit_lt

theorem toNat_inj : a.toNat = b.toNat ↔ a = b := by
  constructor
  · intro h
    rcases a with ⟨la⟩
    rcases b with ⟨lb⟩
    rw [Uint.mk.injEq]
    refine Vector.ext fun i hi => BitVec.eq_of_toNat_eq ?_
    rw [← digit_of_lt hi, ← digit_of_lt hi]
    exact eq_of_positional_eq (fun _ _ => digit_lt) (fun _ _ => digit_lt) h hi
  · rintro rfl
    rfl

@[simp] theorem toNat_ZERO : (ZERO : Uint N).toNat = 0 := by
  refine positional_eq_zero fun i hi => ?_
  rw [digit_of_lt hi]
  simp [ZERO]

/-- The lowest limb. -/
theorem toNat_mod (hN : 0 < N) (a : Uint N) : a.toNat % 2 ^ 64 = a.limbs[0].toNat := by
  have h := positional_div_mod (d := digit a.limbs) (fun _ _ => digit_lt) hN
  rwa [pow_zero, Nat.div_one, digit_of_lt hN] at h

/-- The lowest limb replaced. -/
theorem toNat_set_zero (hN : 0 < N) (a : Uint N) (limb : Limb) :
    (⟨a.limbs.set 0 limb⟩ : Uint N).toNat + a.limbs[0].toNat = a.toNat + limb.toNat := by
  have h := positional_update (b := 2 ^ 64) (d := digit a.limbs) (r := limb.toNat) hN
  rwa [pow_zero, mul_one, mul_one, digit_of_lt hN, ← digit_set hN] at h

theorem toNat_ONE (hN : 0 < N) : (ONE hN).toNat = 1 := by
  have h := toNat_set_zero hN ZERO 1
  rw [toNat_ZERO] at h
  simpa [ONE, ZERO] using h

theorem eq_ONE_iff (hN : 0 < N) : a = ONE hN ↔ a.toNat = 1 := by
  rw [← toNat_inj, toNat_ONE]

theorem toNat_MAX : (MAX : Uint N).toNat + 1 = 2 ^ (64 * N) := by
  have hdigit : ∀ i < N, digit (MAX : Uint N).limbs i = 2 ^ 64 - 1 := by
    intro i hi
    rw [digit_of_lt hi]
    simp [MAX]
  rw [toNat, positional_congr hdigit, ← pow_base]
  clear hdigit
  induction N with
  | zero => rfl
  | succ n ih =>
    rw [positional_succ, add_right_comm, ih, pow_succ]
    ring

/-! ### Comparisons

The loop goes down from the highest limb and stops at the first difference. -/

/-- A higher limb that differs overrules the lower ones. -/
theorem ge_iff : a.ge b = true ↔ b.toNat ≤ a.toNat := by
  rw [← not_lt]
  refine fold_induction (fun i result => result = true ↔
    ¬positional (2 ^ 64) (digit a.limbs) i < positional (2 ^ 64) (digit b.limbs) i)
    (by simp) fun i hi result ih => ?_
  rw [positional_succ_lt_iff (d := digit a.limbs) (e := digit b.limbs) (fun _ _ => digit_lt)
    (fun _ _ => digit_lt), digit_of_lt hi, digit_of_lt hi]
  simp only [gt_iff_lt, BitVec.lt_def]
  split
  · simp; omega
  · split
    · simp; omega
    · rw [ih]; omega

theorem cmp_eq : a.cmp b = compare a.toNat b.toNat := by
  refine fold_induction (fun i result => result =
    compare (positional (2 ^ 64) (digit a.limbs) i) (positional (2 ^ 64) (digit b.limbs) i))
    (by simp) fun i hi result ih => ?_
  have hlt := positional_succ_lt_iff (n := i) (d := digit a.limbs) (e := digit b.limbs)
    (fun _ _ => digit_lt) (fun _ _ => digit_lt)
  have hgt := positional_succ_lt_iff (n := i) (d := digit b.limbs) (e := digit a.limbs)
    (fun _ _ => digit_lt) (fun _ _ => digit_lt)
  rw [digit_of_lt hi, digit_of_lt hi] at hlt hgt
  rcases Nat.lt_trichotomy a.limbs[i].toNat b.limbs[i].toNat with h | h | h
  · simp only [Nat.compare_eq_lt.mpr h]
    exact (Nat.compare_eq_lt.mpr (hlt.mpr (Or.inl h))).symm
  · simp only [Nat.compare_eq_eq.mpr h, ih]
    rcases Nat.lt_trichotomy (positional (2 ^ 64) (digit a.limbs) i)
      (positional (2 ^ 64) (digit b.limbs) i) with h' | h' | h'
    · rw [Nat.compare_eq_lt.mpr h', Nat.compare_eq_lt.mpr (hlt.mpr (Or.inr ⟨h, h'⟩))]
    · rw [positional_succ, positional_succ, digit_of_lt hi, digit_of_lt hi, h, h']
      simp
    · rw [Nat.compare_eq_gt.mpr h', Nat.compare_eq_gt.mpr (hgt.mpr (Or.inr ⟨h.symm, h'⟩))]
  · simp only [Nat.compare_eq_gt.mpr h]
    exact (Nat.compare_eq_gt.mpr (hgt.mpr (Or.inl h))).symm

theorem eq_iff : a.eq b = true ↔ a = b := by
  rw [eq, Nat.all_eq_finRange_all]
  rcases a with ⟨la⟩
  rcases b with ⟨lb⟩
  simp only [List.all_eq_true, List.mem_finRange, decide_eq_true_iff, true_imp_iff, mk.injEq]
  constructor
  · intro h
    exact Vector.ext fun i hi => h ⟨i, hi⟩
  · rintro rfl i
    rfl

theorem isZero_iff : a.isZero = true ↔ a.toNat = 0 := by
  rw [isZero, eq_iff, ← toNat_inj, toNat_ZERO]

theorem isEven_iff (hN : 0 < N) : a.isEven hN = true ↔ a.toNat % 2 = 0 := by
  have hlow := a.toNat_mod hN
  rw [isEven, decide_eq_true_iff, ← BitVec.toNat_inj, BitVec.toNat_and,
    show (1 : Limb).toNat = 1 from rfl, Nat.and_one_is_mod, show (0 : Limb).toNat = 0 from rfl]
  omega

theorem isOdd_iff (hN : 0 < N) : a.isOdd hN = true ↔ a.toNat % 2 = 1 := by
  have hlow := a.toNat_mod hN
  rw [isOdd, decide_eq_true_iff, ← BitVec.toNat_inj, BitVec.toNat_and,
    show (1 : Limb).toNat = 1 from rfl, Nat.and_one_is_mod]
  omega

/-- A bit set in an even number. -/
theorem toNat_set_bit (hN : 0 < N) (a : Uint N) (bit : Bool) (heven : a.toNat % 2 = 0) :
    (⟨a.limbs.set 0 (a.limbs[0] ||| (BitVec.ofBool bit).setWidth 64)⟩ : Uint N).toNat =
      a.toNat + bit.toNat := by
  have h := toNat_set_zero hN a (a.limbs[0] ||| (BitVec.ofBool bit).setWidth 64)
  have hlow := a.toNat_mod hN
  have hor : (a.limbs[0] ||| (BitVec.ofBool bit).setWidth 64).toNat =
      a.limbs[0].toNat + bit.toNat := by
    have hbit : ((BitVec.ofBool bit).setWidth 64).toNat = bit.toNat := by cases bit <;> rfl
    have hle := Bool.toNat_le bit
    rw [BitVec.toNat_or, hbit, show a.limbs[0].toNat = 2 ^ 1 * (a.limbs[0].toNat / 2) by omega,
      ← Nat.two_pow_add_eq_or_of_lt (by omega)]
  omega

/-! ### Bits -/

/-- A limb of the number. -/
theorem toNat_div_mod (a : Uint N) {i : ℕ} (hi : i < N) :
    a.toNat / 2 ^ (64 * i) % 2 ^ 64 = a.limbs[i].toNat := by
  rw [← digit_of_lt hi, pow_mul]
  exact positional_div_mod (fun _ _ => digit_lt) hi

theorem and_mask_ne_zero {w : ℕ} (limb : BitVec w) {k : ℕ} (hk : k < w) :
    decide (limb &&& 1#w <<< k ≠ 0) = limb.getLsbD k := by
  rw [← BitVec.twoPow_eq, BitVec.and_twoPow]
  cases limb.getLsbD k with
  | false => simp
  | true =>
    rw [if_pos rfl, decide_eq_true_iff, ne_eq, ← BitVec.toNat_inj,
      BitVec.toNat_twoPow_of_lt hk]
    exact (Nat.two_pow_pos k).ne'

/-- **The bits are those of the number.** -/
theorem getBit_eq (a : Uint N) (i : ℕ) : a.getBit i = a.toNat.testBit i := by
  rw [getBit]
  split
  · rename_i hi
    exact (Nat.testBit_lt_two_pow (a.toNat_lt.trans_le (Nat.pow_le_pow_right two_pos hi))).symm
  · rename_i hi
    have hlimb : i / 64 < N := Nat.div_lt_of_lt_mul (not_le.mp hi)
    have hbit : i - 64 * (i / 64) = i % 64 := by omega
    have hmod : i % 64 < 64 := Nat.mod_lt _ (by norm_num)
    simp only [hbit]
    rw [and_mask_ne_zero _ hmod, ← BitVec.testBit_toNat, ← a.toNat_div_mod hlimb,
      Nat.testBit_mod_two_pow, Nat.testBit_div_two_pow, Nat.mod_add_div, decide_eq_true hmod,
      Bool.true_and]

/-- The limb below an index bounds the number when the limbs from the index on are zero. -/
theorem toNat_lt_of_limb_lt (a : Uint N) {i k : ℕ} (h : i < N)
    (hhigh : a.toNat < 2 ^ (64 * (i + 1))) (hlimb : a.limbs[i].toNat < 2 ^ k) :
    a.toNat < 2 ^ (64 * i + k) := by
  have hdiv : a.toNat / 2 ^ (64 * i) < 2 ^ 64 := by
    rw [Nat.div_lt_iff_lt_mul (Nat.two_pow_pos _), ← pow_add]
    rwa [mul_add, mul_one, add_comm] at hhigh
  rw [← a.toNat_div_mod h, Nat.mod_eq_of_lt hdiv, Nat.div_lt_iff_lt_mul (Nat.two_pow_pos _),
    ← pow_add] at hlimb
  rwa [add_comm]

/-- The count stays above the number as it goes down the limbs that are empty. -/
theorem toNat_lt_numBitsFrom (a : Uint N) (index : ℕ) (h : index ≤ N)
    (hhigh : a.toNat < 2 ^ (64 * index)) : a.toNat < 2 ^ a.numBitsFrom index h (64 * index) := by
  induction index with
  | zero => exact hhigh
  | succ index ih =>
    have hlimb : a.limbs[index].toNat < 2 ^ (64 - leadingZeros a.limbs[index]) :=
      BitVec.toNat_lt_two_pow_sub_clz
    have hle : leadingZeros a.limbs[index] ≤ 64 := BitVec.clz_le
    have hlt := a.toNat_lt_of_limb_lt h hhigh hlimb
    rw [numBitsFrom]
    simp only [show 64 * (index + 1) - leadingZeros a.limbs[index] =
      64 * index + (64 - leadingZeros a.limbs[index]) by omega]
    split
    · exact hlt
    · rename_i hleading
      rw [not_not.mp hleading, Nat.sub_self, add_zero] at hlt ⊢
      exact ih (Nat.le_of_succ_le h) hlt

theorem toNat_lt_numBits (a : Uint N) : a.toNat < 2 ^ a.numBits := by
  rw [numBits]
  split
  · rename_i hzero
    rw [isZero_iff.mp hzero]
    norm_num
  · exact a.toNat_lt_numBitsFrom N le_rfl a.toNat_lt

/-! ### Arithmetic with a carry

A carry is a bit here and a limb there. `carryLoop_spec` takes the type of the carry and what a
carry is worth as parameters, and is used for doubling, for the additions, and for the subtractions,
where a carry is worth less than nothing. Halving goes through the limbs from the top and has an
induction of its own. -/

/-- **The loops with a carry.** When each step computes `x i` plus the carry in a limb and a new
carry, with `w` what a carry is worth, the loop computes the number with the digits `x i`. -/
theorem carryLoop_spec {γ : Type} (f : (i : ℕ) → i < N → Limb → γ → Limb × γ) (carry : γ)
    (w : γ → ℤ) (x : ℕ → ℤ) (Valid : γ → Prop) (hcarry : Valid carry)
    (h : ∀ (i : ℕ) (hi : i < N) (c : γ), Valid c →
      Valid (f i hi a.limbs[i] c).2 ∧
      ((f i hi a.limbs[i] c).1.toNat : ℤ) + 2 ^ 64 * w (f i hi a.limbs[i] c).2 = x i + w c) :
    Valid (a.carryLoop f carry).2 ∧
    ((a.carryLoop f carry).1.toNat : ℤ) + 2 ^ (64 * N) * w (a.carryLoop f carry).2 =
      positional (2 ^ 64) x N + w carry := by
  have hinv := fold_induction
    (fun i (s : Uint N × γ) => (∀ (j : ℕ) (hj : j < N), i ≤ j → s.1.limbs[j] = a.limbs[j]) ∧
      Valid s.2 ∧
      ((positional (2 ^ 64) (digit s.1.limbs) i : ℕ) : ℤ) + (2 ^ 64) ^ i * w s.2 =
        positional (2 ^ 64) x i + w carry)
    (n := N) (s := (a, carry))
    (f := fun i hi s => (⟨s.1.limbs.set i (f i hi s.1.limbs[i] s.2).1⟩,
      (f i hi s.1.limbs[i] s.2).2)) ⟨fun _ _ _ => rfl, hcarry, by simp⟩ ?_
  · rw [pow_mul]
    exact hinv.2
  · rintro i hi ⟨s, c⟩ ⟨hframe, hvalid, hsum⟩
    simp only [hframe i hi le_rfl] at hsum ⊢
    obtain ⟨hvalid', hstep⟩ := h i hi c hvalid
    refine ⟨?_, hvalid', ?_⟩
    · intro j hj hij
      rw [Vector.getElem_set_ne hi hj (by omega)]
      exact hframe j hj (by omega)
    · have hlow : positional (2 ^ 64) (digit (s.limbs.set i (f i hi a.limbs[i] c).1)) i =
          positional (2 ^ 64) (digit s.limbs) i :=
        positional_congr fun j hj => digit_set_of_ne hi hj.ne
      rw [positional_succ, positional_succ, hlow, digit_of_lt hi, Vector.getElem_set_self]
      rw [Nat.cast_add, Nat.cast_mul, Nat.cast_pow, Nat.cast_pow, Nat.cast_ofNat]
      linear_combination hsum + (2 ^ 64) ^ i * hstep

theorem toNat_cast (a : Uint N) :
    (a.toNat : ℤ) = positional (2 ^ 64) (fun i => (digit a.limbs i : ℤ)) N := positional_cast

/-- One limb shifted, with the bit that comes in and the bit that goes out. -/
theorem shiftLeft_or (limb last : Limb) (hlast : last.toNat < 2) :
    (limb <<< 1 ||| last).toNat + 2 ^ 64 * (limb >>> 63).toNat = 2 * limb.toNat + last.toNat := by
  have hlimb := limb.isLt
  have hor : (limb <<< 1 ||| last).toNat = limb.toNat * 2 % 2 ^ 64 + last.toNat := by
    have heven : limb.toNat * 2 % 2 ^ 64 = 2 ^ 1 * (limb.toNat % 2 ^ 63) := by omega
    rw [BitVec.toNat_or, BitVec.toNat_shiftLeft, Nat.shiftLeft_eq, pow_one, heven,
      ← Nat.two_pow_add_eq_or_of_lt (by simpa using hlast)]
  rw [hor, BitVec.toNat_ushiftRight, Nat.shiftRight_eq_div_pow]
  omega

/-- **Doubling**, with the bit that overflows. -/
theorem checkedMul2_spec (a : Uint N) :
    a.checkedMul2.1.toNat + 2 ^ (64 * N) * a.checkedMul2.2.toNat = 2 * a.toNat := by
  obtain ⟨hlast, hsum⟩ := carryLoop_spec (a := a)
    (fun _ _ a last => (a <<< 1 ||| last, a >>> 63)) (0 : Limb)
    (fun last => (last.toNat : ℤ)) (fun i => 2 * (digit a.limbs i : ℤ))
    (fun last => last.toNat < 2) (by decide) fun i hi last hlast => by
      refine ⟨?_, ?_⟩
      · have hlimb := a.limbs[i].isLt
        rw [BitVec.toNat_ushiftRight, Nat.shiftRight_eq_div_pow]
        omega
      · rw [digit_of_lt hi]
        exact_mod_cast shiftLeft_or a.limbs[i] last hlast
  rw [positional_mul, ← toNat_cast] at hsum
  rw [checkedMul2]
  generalize carryLoop (fun _ _ a last => (a <<< 1 ||| last, a >>> 63)) a (0 : Limb) = r at *
  have hbit : (decide (r.2 ≠ 0)).toNat = r.2.toNat := by
    by_cases hzero : r.2 = 0
    · rw [hzero]
      rfl
    · have hne : r.2.toNat ≠ 0 := fun h => hzero (BitVec.eq_of_toNat_eq h)
      rw [decide_eq_true hzero, Bool.toNat_true]
      omega
  rw [hbit]
  exact_mod_cast hsum

/-- One limb shifted, with the bit that comes in from above. -/
theorem shiftRight_or (limb last : Limb) (bit : ℕ) (hlast : last.toNat = 2 ^ 63 * bit) :
    (limb >>> 1 ||| last).toNat = limb.toNat / 2 + 2 ^ 63 * bit := by
  have hlimb := limb.isLt
  rw [BitVec.toNat_or, BitVec.toNat_ushiftRight, Nat.shiftRight_eq_div_pow, pow_one, hlast,
    Nat.or_comm, ← Nat.two_pow_add_eq_or_of_lt (by omega), add_comm]

/-- **Halving** rounds down. -/
theorem toNat_div2Assign (a : Uint N) : a.div2Assign.toNat = a.toNat / 2 := by
  have hinv := foldRev_induction
    (fun i (s : Uint N × Limb) => (∀ (j : ℕ) (hj : j < N), j < i → s.1.limbs[j] = a.limbs[j]) ∧
      (∀ (j : ℕ) (hj : j < N), i ≤ j →
        s.1.limbs[j].toNat = digit a.limbs j / 2 + 2 ^ 63 * (digit a.limbs (j + 1) % 2)) ∧
      s.2.toNat = 2 ^ 63 * (digit a.limbs i % 2))
    (n := N) (s := (a, (0 : Limb))) (f := fun i hi (s : Uint N × Limb) =>
      (⟨s.1.limbs.set i (s.1.limbs[i] >>> 1 ||| s.2)⟩, s.1.limbs[i] <<< 63))
    ⟨fun _ _ _ => rfl, fun j hj hle => absurd hj (not_lt.mpr hle), ?_⟩ ?_
  · have hdigits : a.div2Assign.toNat = positional (2 ^ 64)
        (fun i => digit a.limbs i / 2 + 2 ^ 63 * (digit a.limbs (i + 1) % 2)) N :=
      positional_congr fun i hi => (digit_of_lt hi).trans (hinv.2.1 i hi (Nat.zero_le _))
    have hhalf := positional_shift (d := digit a.limbs) (n := N) (h := 2 ^ 63) (k := 2)
    have hlast : digit a.limbs N = 0 := dif_neg (lt_irrefl N)
    have hbase : 2 ^ 63 * 2 = 2 ^ 64 := (pow_succ 2 63).symm
    rw [hlast, Nat.zero_mod, mul_zero, add_zero, hbase] at hhalf
    rw [hdigits, Uint.toNat]
    omega
  · rw [digit, dif_neg (lt_irrefl N)]
    rfl
  · rintro i hi ⟨s, last⟩ ⟨hlow, hhigh, hlast⟩
    simp only [hlow i hi i.lt_succ_self] at hhigh ⊢
    refine ⟨?_, ?_, ?_⟩
    · intro j hj hji
      rw [Vector.getElem_set_ne hi hj hji.ne']
      exact hlow j hj (hji.trans i.lt_succ_self)
    · intro j hj hij
      rcases hij.eq_or_lt with rfl | hlt
      · rw [Vector.getElem_set_self, shiftRight_or _ _ _ hlast, digit_of_lt hi]
      · rw [Vector.getElem_set_ne hi hj hlt.ne]
        exact hhigh j hj hlt
    · rw [BitVec.toNat_shiftLeft, Nat.shiftLeft_eq, digit_of_lt hi]
      omega

theorem two_mul_toNat_div2Assign (heven : a.toNat % 2 = 0) :
    2 * a.div2Assign.toNat = a.toNat := by
  rw [toNat_div2Assign]
  omega

/-- The highest bit set, where it is not. -/
theorem toNat_set_top_bit (hN : 0 < N) (a : Uint N) (h : 2 * a.toNat < 2 ^ (64 * N)) :
    2 * (⟨a.limbs.set (N - 1) (a.limbs[N - 1] ||| (1 : Limb) <<< 63)⟩ : Uint N).toNat =
      2 * a.toNat + 2 ^ (64 * N) := by
  have hlt : N - 1 < N := by omega
  have hW : 2 ^ (64 * N) = 2 ^ 64 * (2 ^ 64) ^ (N - 1) := by
    rw [← pow_succ', Nat.sub_add_cancel hN, pow_base]
  have hlimb : a.limbs[N - 1].toNat < 2 ^ 63 := by
    rw [← a.toNat_div_mod hlt, pow_mul]
    refine (Nat.mod_le _ _).trans_lt (Nat.div_lt_of_lt_mul ?_)
    rw [hW] at h
    rw [mul_comm]
    omega
  have hor : (a.limbs[N - 1] ||| (1 : Limb) <<< 63).toNat = a.limbs[N - 1].toNat + 2 ^ 63 := by
    rw [BitVec.toNat_or, Nat.or_comm, show ((1 : Limb) <<< 63).toNat = 2 ^ 63 * 1 from rfl,
      ← Nat.two_pow_add_eq_or_of_lt hlimb, mul_one, add_comm]
  have hupdate := positional_update (b := 2 ^ 64) (d := digit a.limbs)
    (r := (a.limbs[N - 1] ||| (1 : Limb) <<< 63).toNat) hlt
  rw [← digit_set hlt, digit_of_lt hlt, hor, add_mul] at hupdate
  change (⟨a.limbs.set (N - 1) (a.limbs[N - 1] ||| (1 : Limb) <<< 63)⟩ : Uint N).toNat + _ =
    a.toNat + _ at hupdate
  rw [hW]
  omega
/-- The loops that add. -/
theorem carryLoop_adc {f : (i : ℕ) → i < N → Limb → Bool → Limb × Bool} {carry : Bool}
    {x y : Uint N} (hf : ∀ (i : ℕ) (hi : i < N) (c : Bool),
      f i hi a.limbs[i] c = Limb.adc x.limbs[i] y.limbs[i] c) :
    (a.carryLoop f carry).1.toNat + 2 ^ (64 * N) * (a.carryLoop f carry).2.toNat =
      x.toNat + y.toNat + carry.toNat := by
  obtain ⟨-, hsum⟩ := carryLoop_spec (a := a) f carry
    (fun carry => (carry.toNat : ℤ)) (fun i => (digit x.limbs i : ℤ) + digit y.limbs i)
    (fun _ => True) trivial fun i hi c _ => by
      refine ⟨trivial, ?_⟩
      rw [digit_of_lt hi, digit_of_lt hi, hf]
      exact_mod_cast Limb.adc_spec x.limbs[i] y.limbs[i] c
  rw [positional_sum, ← toNat_cast, ← toNat_cast] at hsum
  exact_mod_cast hsum

/-- **Addition**, with the carry. -/
theorem checkedAddAssign_spec (a rhs : Uint N) :
    (a.checkedAddAssign rhs).1.toNat + 2 ^ (64 * N) * (a.checkedAddAssign rhs).2.toNat =
      a.toNat + rhs.toNat :=
  carryLoop_adc fun _ _ _ => rfl

theorem adc_spec (a rhs : Uint N) (carry : Bool) :
    (a.adc rhs carry).1.toNat + 2 ^ (64 * N) * (a.adc rhs carry).2.toNat =
      a.toNat + rhs.toNat + carry.toNat :=
  carryLoop_adc fun _ _ _ => rfl

/-- The loops that subtract. -/
theorem carryLoop_sbb {f : (i : ℕ) → i < N → Limb → Bool → Limb × Bool}
    (hf : ∀ (i : ℕ) (hi : i < N) (c : Bool),
      (f i hi a.limbs[i] c).1.toNat + rhs.limbs[i].toNat + c.toNat =
        a.limbs[i].toNat + 2 ^ 64 * (f i hi a.limbs[i] c).2.toNat) :
    (a.carryLoop f false).1.toNat + rhs.toNat =
      a.toNat + 2 ^ (64 * N) * (a.carryLoop f false).2.toNat := by
  -- a borrow is a carry of minus one
  obtain ⟨-, hsum⟩ := carryLoop_spec (a := a) f false
    (fun borrow => -(borrow.toNat : ℤ))
    (fun i => (digit a.limbs i : ℤ) + -1 * (digit rhs.limbs i : ℤ))
    (fun _ => True) trivial fun i hi c _ => by
      refine ⟨trivial, ?_⟩
      rw [digit_of_lt hi, digit_of_lt hi]
      have hstep := hf i hi c
      zify at hstep
      linear_combination hstep
  rw [positional_sum, positional_mul, ← toNat_cast, ← toNat_cast] at hsum
  zify
  simp only [Bool.toNat_false, Nat.cast_zero] at hsum
  linear_combination hsum

/-- **Subtraction**, with what was borrowed. -/
theorem checkedSub_spec (a rhs : Uint N) :
    (a.checkedSub rhs).1.toNat + rhs.toNat =
      a.toNat + 2 ^ (64 * N) * (a.checkedSub rhs).2.toNat :=
  carryLoop_sbb fun i _ c => Limb.sbb_spec a.limbs[i] rhs.limbs[i] c

theorem checkedSubAssign_spec (a rhs : Uint N) :
    (a.checkedSubAssign rhs).1.toNat + rhs.toNat =
      a.toNat + 2 ^ (64 * N) * (a.checkedSubAssign rhs).2.toNat :=
  carryLoop_sbb fun i _ c => Limb.sbbAssign_spec a.limbs[i] rhs.limbs[i] c

/-- A number with a carry on top is at least another number when the carry is set or the limbs
are. -/
theorem ge_or_carry_iff {m : Uint N} {carry : Bool} {v : ℕ}
    (hv : a.toNat + 2 ^ (64 * N) * carry.toNat = v) :
    a.ge m = true ∨ carry = true ↔ m.toNat ≤ v := by
  have hm := m.toNat_lt
  rw [ge_iff, ← hv]
  cases carry with
  | false => simp
  | true =>
    rw [Bool.toNat_true, mul_one]
    exact iff_of_true (Or.inr rfl) (by omega)

/-- A difference from a number with a carry on top: what is borrowed is the carry. -/
theorem eq_sub_of_borrow {s x m w v : ℕ} {c borrow : Bool}
    (h : s + m = x + w * borrow.toNat) (hs : s < w) (hv : x + w * c.toNat = v) (hle : m ≤ v)
    (hlt : v < m + w) : s = v - m := by
  cases c <;> cases borrow <;> simp only [Bool.toNat_true, Bool.toNat_false] at h hv <;> omega

theorem toNat_checkedSub {c : Bool} {v : ℕ} (hv : a.toNat + 2 ^ (64 * N) * c.toNat = v)
    (hle : rhs.toNat ≤ v) (hlt : v < rhs.toNat + 2 ^ (64 * N)) :
    (a.checkedSub rhs).1.toNat = v - rhs.toNat :=
  eq_sub_of_borrow (a.checkedSub_spec rhs) (toNat_lt _) hv hle hlt

theorem toNat_checkedSubAssign {c : Bool} {v : ℕ}
    (hv : a.toNat + 2 ^ (64 * N) * c.toNat = v) (hle : rhs.toNat ≤ v)
    (hlt : v < rhs.toNat + 2 ^ (64 * N)) : (a.checkedSubAssign rhs).1.toNat = v - rhs.toNat :=
  eq_sub_of_borrow (a.checkedSubAssign_spec rhs) (toNat_lt _) hv hle hlt

/-- Without a carry. -/
theorem toNat_checkedSubAssign_of_le (hle : rhs.toNat ≤ a.toNat) :
    (a.checkedSubAssign rhs).1.toNat = a.toNat - rhs.toNat :=
  toNat_checkedSubAssign (c := false) rfl hle (a.toNat_lt.trans_le (Nat.le_add_left _ _))

/-- **Reduction of a number with a carry on top**, which the subtraction uses up. -/
theorem toNat_reduce {c cond : Bool} {v : ℕ}
    (hv : a.toNat + 2 ^ (64 * N) * c.toNat = v) (hlt : v < 2 * rhs.toNat)
    (hcond : cond = true ↔ rhs.toNat ≤ v) :
    (if cond = true then (a.checkedSub rhs).1 else a).toNat = v % rhs.toNat := by
  have hrhs := rhs.toNat_lt
  split
  · rename_i h
    have hle := hcond.mp h
    rw [Nat.mod_eq_sub_mod hle, Nat.mod_eq_of_lt (by omega)]
    exact toNat_checkedSub hv hle (by omega)
  · rename_i h
    have hlt' : v < rhs.toNat := not_le.mp fun hle => h (hcond.mpr hle)
    rw [Nat.mod_eq_of_lt hlt']
    cases c with
    | false => simpa using hv
    | true =>
      rw [Bool.toNat_true] at hv
      omega

/-! ### Products

A product is accumulated in the digits of a low and a high part. A row adds one limb times the other
factor, and its last carry goes to a digit that is still zero; so after `i` rows the digits stand
for the product with the lowest `i` limbs. -/

/-- What multiplying and adding at one limb does to the digits. -/
theorem wideDigit_carryingMacAt (lo hi : Limbs N) {k : ℕ} (hk : k < N + N) (b c carry : Limb) :
    ∃ r : ℕ, wideDigit (carryingMacAt lo hi k hk b c carry).1.1
        (carryingMacAt lo hi k hk b c carry).1.2 = Function.update (wideDigit lo hi) k r ∧
      r + 2 ^ 64 * (carryingMacAt lo hi k hk b c carry).2.toNat =
        wideDigit lo hi k + b.toNat * c.toNat + carry.toNat := by
  rw [carryingMacAt]
  split
  · rename_i h
    have hlt : k - N < N := by omega
    refine ⟨(Limb.carryingMac hi[k - N] b c carry).1.toNat, ?_, ?_⟩
    · simp only [wideDigit_set_hi hlt, Nat.add_sub_cancel' h]
    · rw [wideDigit, if_neg (by omega), digit_of_lt hlt]
      exact Limb.carryingMac_spec _ _ _ _
  · rename_i h
    have hlt : k < N := by omega
    refine ⟨(Limb.carryingMac lo[k] b c carry).1.toNat, wideDigit_set_lo hlt, ?_⟩
    rw [wideDigit, if_pos hlt, digit_of_lt hlt]
    exact Limb.carryingMac_spec _ _ _ _

/-- **A row of a product.** The limbs `c` times `b` are added from position `o` on. Other digits
stay as they are. -/
theorem row_spec {n o : ℕ} (hn : o + n ≤ N + N) (b : Limb) (c : (j : ℕ) → j < n → Limb)
    (d : ℕ → ℕ) (hd : ∀ (j : ℕ) (hj : j < n), (c j hj).toNat = d j) (lo hi : Limbs N)
    (carry : Limb) {t : (Limbs N × Limbs N) × Limb}
    (ht : n.fold (fun j hj t => carryingMacAt t.1.1 t.1.2 (o + j) (by omega) b (c j hj) t.2)
      ((lo, hi), carry) = t) :
    (∀ k, k < o ∨ o + n ≤ k → wideDigit t.1.1 t.1.2 k = wideDigit lo hi k) ∧
      wideValue t.1.1 t.1.2 + t.2.toNat * (2 ^ 64) ^ (o + n) =
        wideValue lo hi + carry.toNat * (2 ^ 64) ^ o +
          b.toNat * positional (2 ^ 64) d n * (2 ^ 64) ^ o := by
  subst ht
  refine fold_induction
    (fun j (t : (Limbs N × Limbs N) × Limb) =>
      (∀ k, k < o ∨ o + n ≤ k → wideDigit t.1.1 t.1.2 k = wideDigit lo hi k) ∧
      wideValue t.1.1 t.1.2 + t.2.toNat * (2 ^ 64) ^ (o + j) =
        wideValue lo hi + carry.toNat * (2 ^ 64) ^ o +
          b.toNat * positional (2 ^ 64) d j * (2 ^ 64) ^ o) ⟨fun _ _ => rfl, by simp⟩ ?_
  rintro j hj ⟨⟨lo', hi'⟩, carry'⟩ ⟨hframe, hvalue⟩
  have hk : o + j < N + N := by omega
  obtain ⟨r, hdigits, hr⟩ := wideDigit_carryingMacAt lo' hi' hk b (c j hj) carry'
  have hstep := positional_carry hk hr
  rw [← hdigits] at hstep
  refine ⟨?_, ?_⟩
  · intro k hk'
    rw [hdigits, Function.update_of_ne (by omega), hframe k hk']
  · simp only [wideValue] at hvalue hstep ⊢
    rw [← add_assoc o j 1, hstep, hvalue, positional_succ, hd, pow_add]
    ring

/-- One limb of the high part set, where it was zero. -/
theorem wideValue_set_hi {lo hi : Limbs N} {i : ℕ} (hi' : i < N) {limb : Limb}
    (hzero : wideDigit lo hi (N + i) = 0) :
    wideValue lo (hi.set i limb) = wideValue lo hi + limb.toNat * (2 ^ 64) ^ (N + i) := by
  have h := positional_update (b := 2 ^ 64) (d := wideDigit lo hi) (r := limb.toNat)
    (show N + i < N + N by omega)
  rwa [hzero, zero_mul, add_zero, ← wideDigit_set_hi hi'] at h

/-- **The product is exact.** -/
theorem wideningMul_spec (a b : Uint N) :
    (a.wideningMul b).1.toNat + 2 ^ (64 * N) * (a.wideningMul b).2.toNat =
      a.toNat * b.toNat := by
  have hinv := fold_induction
    (fun i (s : Limbs N × Limbs N) => (∀ k, N + i ≤ k → wideDigit s.1 s.2 k = 0) ∧
      wideValue s.1 s.2 = positional (2 ^ 64) (digit a.limbs) i * b.toNat)
    (s := ((ZERO : Uint N).limbs, (ZERO : Uint N).limbs)) (n := N)
    (f := fun i _ s =>
      let t := N.fold (fun j _ t =>
        carryingMacAt t.1.1 t.1.2 (i + j) (by omega) a.limbs[i] b.limbs[j] t.2) (s, 0)
      (t.1.1, t.1.2.set i t.2)) ⟨?_, ?_⟩ ?_
  · rw [← wideValue_eq]
    exact hinv.2
  · intro k hk
    rw [wideDigit, if_neg (by omega), digit]
    split
    · simp [ZERO]
    · rfl
  · have hzero : (⟨(ZERO : Uint N).limbs⟩ : Uint N).toNat = 0 := toNat_ZERO
    simp only [wideValue_eq, hzero, mul_zero, add_zero, positional_zero, zero_mul]
  · rintro i hi ⟨lo, hi'⟩ ⟨hzero, hvalue⟩
    simp only
    generalize ht : N.fold (fun j _ t =>
      carryingMacAt t.1.1 t.1.2 (i + j) (by omega) a.limbs[i] b.limbs[j] t.2) ((lo, hi'), 0) = t
    obtain ⟨⟨lo', hi''⟩, carry⟩ := t
    obtain ⟨hframe, hrow⟩ := row_spec (by omega) a.limbs[i] (fun j _ => b.limbs[j])
      (digit b.limbs) (fun j hj => (digit_of_lt hj).symm) lo hi' 0 ht
    simp only at hzero hvalue hframe hrow ⊢
    have hlast : wideDigit lo' hi'' (N + i) = 0 := by
      rw [hframe _ (by omega)]
      exact hzero _ le_rfl
    refine ⟨?_, ?_⟩
    · intro k hk
      rw [wideDigit_set_hi hi, Function.update_of_ne (by omega), hframe _ (by omega)]
      exact hzero k (by omega)
    · rw [wideValue_set_hi hi hlast, add_comm N i, hrow, hvalue, positional_succ, digit_of_lt hi]
      simp only [show (0 : Limb).toNat = 0 from rfl, toNat]
      ring

end Uint

namespace WideUint

open Uint

variable {N : ℕ}

/-- The number that the two parts stand for. -/
def toNat (self : WideUint N) : ℕ := 2 ^ (64 * N) * self.high.toNat + self.low.toNat

theorem getBit_eq (self : WideUint N) (i : ℕ) : self.getBit i = self.toNat.testBit i := by
  rw [getBit, toNat, Nat.testBit_two_pow_mul_add _ self.low.toNat_lt, BITS]
  split
  · rename_i h
    rw [Uint.getBit_eq, if_neg (by omega)]
  · rename_i h
    rw [Uint.getBit_eq, if_pos (by omega)]

theorem toNat_lt_numBits (self : WideUint N) : self.toNat < 2 ^ self.numBits := by
  rw [numBits, toNat]
  split
  · rename_i hzero
    rw [isZero_iff.mp hzero, mul_zero, zero_add]
    exact self.low.toNat_lt_numBits
  · have hlow := self.low.toNat_lt
    have hhigh := self.high.toNat_lt_numBits
    rw [pow_add, BITS]
    calc
      2 ^ (64 * N) * self.high.toNat + self.low.toNat <
          2 ^ (64 * N) * (self.high.toNat + 1) := by rw [mul_add_one]; omega
      _ ≤ 2 ^ (64 * N) * 2 ^ self.high.numBits := Nat.mul_le_mul_left _ hhigh
      _ = 2 ^ self.high.numBits * 2 ^ (64 * N) := mul_comm _ _

/-- **One bit of the dividend.** -/
theorem remStep_eq (hN : 0 < N) (self : WideUint N) (rhs : Uint N) (index : ℕ)
    (remainder : Uint N) (h : remainder.toNat < rhs.toNat) :
    (self.remStep hN rhs index remainder).toNat =
      (2 * remainder.toNat + (self.getBit index).toNat) % rhs.toNat := by
  have hdouble := remainder.checkedMul2_spec
  rw [remStep]
  generalize remainder.checkedMul2 = r at *
  obtain ⟨r, carry⟩ := r
  have heven : r.toNat % 2 = 0 := by
    obtain ⟨k, hk⟩ : 2 ∣ 2 ^ (64 * N) := dvd_pow_self 2 (by omega)
    rw [hk, mul_assoc] at hdouble
    simp only at hdouble
    omega
  have hbit := Bool.toNat_le (self.getBit index)
  have hv := r.toNat_set_bit hN (self.getBit index) heven
  simp only at hdouble ⊢
  refine toNat_reduce (c := carry) ?_ (by omega) ?_
  · rw [hv, ← hdouble]
    ring
  · rw [Bool.or_eq_true]
    refine ge_or_carry_iff ?_
    rw [hv, ← hdouble]
    ring

/-- **The remainder.** -/
theorem rem_eq (hN : 0 < N) (self : WideUint N) (rhs : Uint N) (h : rhs.toNat ≠ 0) :
    ∃ r, self.rem hN rhs = some r ∧ r.toNat = self.toNat % rhs.toNat := by
  have hzero : rhs.isZero = false := by
    rw [← Bool.not_eq_true, isZero_iff]
    exact h
  refine ⟨_, by rw [rem, hzero]; rfl, ?_⟩
  have hinv := foldRev_induction
    (fun index (r : Uint N) => r.toNat = self.toNat / 2 ^ index % rhs.toNat) (n := self.numBits)
    (f := fun index _ => self.remStep hN rhs index) (s := ZERO) ?_ ?_
  · rwa [pow_zero, Nat.div_one] at hinv
  · rw [Nat.div_eq_of_lt self.toNat_lt_numBits, toNat_ZERO, Nat.zero_mod]
  · intro index _ r hr
    have hlt : r.toNat < rhs.toNat := hr.trans_lt (Nat.mod_lt _ (Nat.pos_of_ne_zero h))
    have hdigit : self.toNat / 2 ^ index =
        2 * (self.toNat / 2 ^ (index + 1)) + (self.getBit index).toNat := by
      rw [getBit_eq, Nat.toNat_testBit, pow_succ, ← Nat.div_div_eq_div_mul]
      omega
    rw [self.remStep_eq hN rhs index r hlt, hr, hdigit]
    simp [Nat.add_mod, Nat.mul_mod]

/-- **The remainder of a wide number**, for every divisor but zero, also one whose top bit is set.
A divisor that is not zero has a limb. -/
theorem rem_mk (low high rhs : Uint N) (h : rhs ≠ ZERO) :
    ∃ (hN : 0 < N) (r : Uint N), (WideUint.mk low high).rem hN rhs = some r ∧
      r.toNat = (high.toNat * 2 ^ (64 * N) + low.toNat) % rhs.toNat := by
  have hne : rhs.toNat ≠ 0 := fun hzero => h (toNat_inj.mp (hzero.trans toNat_ZERO.symm))
  have hN : 0 < N := by
    rcases Nat.eq_zero_or_pos N with rfl | hN
    · exact absurd rfl hne
    · exact hN
  obtain ⟨r, hr, heq⟩ := rem_eq hN ⟨low, high⟩ rhs hne
  refine ⟨hN, r, hr, ?_⟩
  rw [heq, toNat, mul_comm high.toNat]

/-- A divisor with its top bit set, for which the bit shifted out forces a subtraction. -/
theorem rem_mk_top_bit :
    (⟨#v[0x8000000000000001]⟩ : Uint 1) ≠ ZERO ∧
    ∃ (hN : 0 < 1) (r : Uint 1),
      (WideUint.mk ⟨#v[5]⟩ ⟨#v[0xffffffffffffffff]⟩).rem hN ⟨#v[0x8000000000000001]⟩ = some r ∧
      r.toNat = ((⟨#v[0xffffffffffffffff]⟩ : Uint 1).toNat * 2 ^ (64 * 1) +
        (⟨#v[5]⟩ : Uint 1).toNat) % (⟨#v[0x8000000000000001]⟩ : Uint 1).toNat :=
  ⟨by decide, rem_mk ⟨#v[5]⟩ ⟨#v[0xffffffffffffffff]⟩ ⟨#v[0x8000000000000001]⟩ (by decide)⟩

end WideUint

end ContractsStylus
