import ContractsStylus.Crypto.UintLaws
import ContractsStylus.Primitives

/-!
# Nothing overflows in a product

The product of two big integers is computed limb by limb, with 128 bits for every intermediate
result. In a build that checks for overflow each of these operations may panic, and on a target
without a wide multiplication the limbs are multiplied by halves. Here the checks are made a part
of the computation, for both ways to multiply limbs, and none of them ever fails.

## Checks as a computation

The definitions with checks follow the same text with sums and products that answer `none` when they
do not fit. That the result is `some` of what the text without checks computes says two things at
once: nothing overflows, and it is the same number in a build of either kind.

## Main definitions

* `Limb.wideningMulWasm`, `Limb.carryingMacWasm` — limbs multiplied by halves
* `Limb.wideningMulChecked`, `Limb.wideningMulWasmChecked` — both multiplications, with checks
* `Uint.wideningMulChecked` — the product, with checks

## Main results

* `Limb.wideningMulWasm_eq` — the two multiplications of limbs agree
* `Uint.wideningMul_exact` — the product is exact, and is computed without overflow
-/

namespace ContractsStylus

namespace Limb

/-- `a as u32 as Limb`. -/
def lowHalf (a : Limb) : Limb := (a.setWidth 32).setWidth 64

/-- Multiply two limbs and return the widened result, without a wide multiplication. -/
def wideningMulWasm (a b : Limb) : WideLimb :=
  let aLo := lowHalf a
  let aHi := a >>> 32
  let bLo := lowHalf b
  let bHi := b >>> 32
  let lolo := wide (aLo * bLo)
  let lohi := wide (aLo * bHi) <<< 32
  let hilo := wide (aHi * bLo) <<< 32
  let hihi := wide (aHi * bHi) <<< 64
  (lolo ||| hihi) + (lohi + hilo)

/-- Calculate `a + b * c + carry`, on the target without a wide multiplication. -/
def carryingMacWasm (a b c carry : Limb) : Limb × Limb :=
  let tmp := wide a + wideningMulWasm b c + wide carry
  let carry := truncate (tmp >>> 64)
  (truncate tmp, carry)

/-! ### With checks -/

/-- `wideningMul`, where an overflow panics. -/
def wideningMulChecked (a b : Limb) : Option WideLimb := checkedMul (wide a) (wide b)

/-- `wideningMulWasm`, where an overflow panics. -/
def wideningMulWasmChecked (a b : Limb) : Option WideLimb := do
  let aLo := lowHalf a
  let aHi := a >>> 32
  let bLo := lowHalf b
  let bHi := b >>> 32
  let lolo ← checkedMul aLo bLo
  let lohi ← checkedMul aLo bHi
  let hilo ← checkedMul aHi bLo
  let hihi ← checkedMul aHi bHi
  let cross ← checkedAdd (wide lohi <<< 32) (wide hilo <<< 32)
  checkedAdd (wide lolo ||| wide hihi <<< 64) cross

/-- `carryingMac` with a multiplication of limbs, where an overflow panics. -/
def carryingMacChecked (mul : Limb → Limb → Option WideLimb) (a b c carry : Limb) :
    Option (Limb × Limb) := do
  let product ← mul b c
  let sum ← checkedAdd (wide a) product
  let tmp ← checkedAdd sum (wide carry)
  return (truncate tmp, truncate (tmp >>> 64))

/-! ### Products by halves -/

theorem toNat_lowHalf (a : Limb) : (lowHalf a).toNat = a.toNat % 2 ^ 32 := by
  rw [lowHalf, BitVec.toNat_setWidth_of_le (by norm_num), BitVec.toNat_setWidth]

theorem toNat_highHalf (a : Limb) : (a >>> 32).toNat = a.toNat / 2 ^ 32 := by
  rw [BitVec.toNat_ushiftRight, Nat.shiftRight_eq_div_pow]

theorem lowHalf_lt (a : Limb) : (lowHalf a).toNat < 2 ^ 32 := by
  rw [toNat_lowHalf]
  exact Nat.mod_lt _ (by norm_num)

theorem highHalf_lt (a : Limb) : (a >>> 32).toNat < 2 ^ 32 := by
  have ha := a.isLt
  rw [toNat_highHalf]
  omega

/-- A limb is its two halves. -/
theorem halves (a : Limb) : a.toNat = (lowHalf a).toNat + 2 ^ 32 * (a >>> 32).toNat := by
  rw [toNat_lowHalf, toNat_highHalf]
  exact (Nat.mod_add_div _ _).symm

/-- The largest product of two halves. -/
theorem half_mul_half_le {x y : Limb} (hx : x.toNat < 2 ^ 32) (hy : y.toNat < 2 ^ 32) :
    x.toNat * y.toNat ≤ (2 ^ 32 - 1) * (2 ^ 32 - 1) :=
  Nat.mul_le_mul (Nat.le_sub_one_of_lt hx) (Nat.le_sub_one_of_lt hy)

/-- The product of two halves fits a limb. -/
theorem checkedMul_halves {x y : Limb} (hx : x.toNat < 2 ^ 32) (hy : y.toNat < 2 ^ 32) :
    checkedMul x y = some (x * y) ∧ (x * y).toNat = x.toNat * y.toNat := by
  have hle := half_mul_half_le hx hy
  have hlt : x.toNat * y.toNat < 2 ^ 64 := by omega
  exact ⟨if_pos hlt, by rw [BitVec.toNat_mul, Nat.mod_eq_of_lt hlt]⟩

/-- A limb moved up in a wide limb. -/
theorem toNat_wide_shiftLeft (a : Limb) {k : ℕ} (hk : k ≤ 64) :
    (wide a <<< k).toNat = 2 ^ k * a.toNat := by
  have hlt : a.toNat * 2 ^ k < 2 ^ 128 := by
    calc a.toNat * 2 ^ k < 2 ^ 64 * 2 ^ k := Nat.mul_lt_mul_of_pos_right a.isLt (Nat.two_pow_pos k)
      _ ≤ 2 ^ 64 * 2 ^ 64 := Nat.mul_le_mul_left _ (Nat.pow_le_pow_right two_pos hk)
      _ = 2 ^ 128 := by norm_num
  rw [BitVec.toNat_shiftLeft, Nat.shiftLeft_eq, toNat_wide, Nat.mod_eq_of_lt hlt, mul_comm]

/-- Two limbs side by side. -/
theorem toNat_wide_or (lo hi : Limb) :
    (wide lo ||| wide hi <<< 64).toNat = lo.toNat + 2 ^ 64 * hi.toNat := by
  rw [BitVec.toNat_or, toNat_wide, toNat_wide_shiftLeft hi le_rfl, Nat.or_comm,
    ← Nat.two_pow_add_eq_or_of_lt lo.isLt, add_comm]

/-- A sum that fits is what the check lets through. -/
theorem checkedAdd_of_toNat {w : ℕ} {x y z : BitVec w} (h : z.toNat = x.toNat + y.toNat) :
    checkedAdd x y = some z ∧ x + y = z := by
  have hz := z.isLt
  refine ⟨checkedAdd_eq_some.mpr h, BitVec.eq_of_toNat_eq ?_⟩
  rw [BitVec.toNat_add_of_lt (by omega), h]

/-- **The product by halves**: it is the product, and none of its parts overflows. -/
theorem wideningMulWasm_spec (a b : Limb) :
    wideningMulWasmChecked a b = some (wideningMul a b) ∧
      wideningMulWasm a b = wideningMul a b := by
  obtain ⟨hll, hlolo⟩ := checkedMul_halves (lowHalf_lt a) (lowHalf_lt b)
  obtain ⟨hlh, hlohi⟩ := checkedMul_halves (lowHalf_lt a) (highHalf_lt b)
  obtain ⟨hhl, hhilo⟩ := checkedMul_halves (highHalf_lt a) (lowHalf_lt b)
  obtain ⟨hhh, hhihi⟩ := checkedMul_halves (highHalf_lt a) (highHalf_lt b)
  have hle := half_mul_half_le (lowHalf_lt a) (highHalf_lt b)
  have hle' := half_mul_half_le (highHalf_lt a) (lowHalf_lt b)
  have hcross : (wide (lowHalf a * (b >>> 32)) <<< 32 +
      wide ((a >>> 32) * lowHalf b) <<< 32).toNat =
        (wide (lowHalf a * (b >>> 32)) <<< 32).toNat +
          (wide ((a >>> 32) * lowHalf b) <<< 32).toNat := by
    rw [BitVec.toNat_add_of_lt]
    rw [toNat_wide_shiftLeft _ (by norm_num), toNat_wide_shiftLeft _ (by norm_num), hlohi, hhilo]
    omega
  obtain ⟨hcheck, -⟩ := checkedAdd_of_toNat hcross
  have hproduct : (wideningMul a b).toNat =
      (wide (lowHalf a * lowHalf b) ||| wide ((a >>> 32) * (b >>> 32)) <<< 64).toNat +
        (wide (lowHalf a * (b >>> 32)) <<< 32 + wide ((a >>> 32) * lowHalf b) <<< 32).toNat := by
    rw [hcross, toNat_wide_or, toNat_wide_shiftLeft _ (by norm_num),
      toNat_wide_shiftLeft _ (by norm_num), hlolo, hlohi, hhilo, hhihi, toNat_wideningMul,
      halves a, halves b]
    ring
  obtain ⟨hcheck', hsum⟩ := checkedAdd_of_toNat hproduct
  refine ⟨?_, hsum⟩
  simp only [wideningMulWasmChecked, hll, hlh, hhl, hhh, hcheck, Option.bind_eq_bind,
    Option.bind_some]
  exact hcheck'

/-- **The two multiplications of limbs agree.** -/
theorem wideningMulWasm_eq : wideningMulWasm = wideningMul :=
  funext fun a => funext fun b => (wideningMulWasm_spec a b).2

theorem wideningMulChecked_eq (a b : Limb) :
    wideningMulChecked a b = some (wideningMul a b) := by
  have h := toNat_wideningMul a b
  rw [← toNat_wide a, ← toNat_wide b] at h
  exact checkedMul_eq_some.mpr h

/-- **No accumulation overflows** 128 bits. -/
theorem carryingMacChecked_eq {mul : Limb → Limb → Option WideLimb}
    (hmul : ∀ a b, mul a b = some (wideningMul a b)) (a b c carry : Limb) :
    carryingMacChecked mul a b c carry = some (carryingMac a b c carry) := by
  have hle := mul_le b c
  have ha := a.isLt
  have hc := carry.isLt
  have hsum : (wide a + wideningMul b c).toNat = (wide a).toNat + (wideningMul b c).toNat := by
    rw [BitVec.toNat_add_of_lt]
    rw [toNat_wide, toNat_wideningMul]
    omega
  have htmp : (wide a + wideningMul b c + wide carry).toNat =
      (wide a + wideningMul b c).toNat + (wide carry).toNat := by
    rw [BitVec.toNat_add_of_lt]
    rw [hsum, toNat_wide, toNat_wide, toNat_wideningMul]
    omega
  simp only [carryingMacChecked, hmul, (checkedAdd_of_toNat hsum).1, (checkedAdd_of_toNat htmp).1,
    Option.bind_eq_bind, Option.bind_some]
  rfl

end Limb

namespace Uint

variable {N : ℕ}

theorem highLimb_lt {k : ℕ} (hk : k < N + N) (h : k ≥ N) : k - N < N := by omega

/-- `carryingMacAt`, where an overflow panics. -/
def carryingMacAtChecked (mul : Limb → Limb → Option WideLimb) (lo hi : Limbs N) (k : ℕ)
    (hk : k < N + N) (b c carry : Limb) : Option ((Limbs N × Limbs N) × Limb) :=
  if h : k ≥ N then do
    have := highLimb_lt hk h
    let (limb, carry) ← Limb.carryingMacChecked mul hi[k - N] b c carry
    return ((lo, hi.set (k - N) limb), carry)
  else do
    have := Nat.lt_of_not_ge h
    let (limb, carry) ← Limb.carryingMacChecked mul lo[k] b c carry
    return ((lo.set k limb, hi), carry)

/-- `wideningMul` with a multiplication of limbs, where an overflow panics. -/
def wideningMulChecked (mul : Limb → Limb → Option WideLimb) (self rhs : Uint N) :
    Option (Uint N × Uint N) := do
  let (lo, hi) ← tryFold N (fun i hi s => do
    let ((lo, hi), carry) ← tryFold N (fun j hj t =>
      carryingMacAtChecked mul t.1.1 t.1.2 (i + j) (Nat.add_lt_add hi hj) self.limbs[i]
        rhs.limbs[j] t.2) (s, 0)
    return (lo, hi.set i carry)) ((ZERO : Uint N).limbs, (ZERO : Uint N).limbs)
  return (⟨lo⟩, ⟨hi⟩)

theorem carryingMacAtChecked_eq {mul : Limb → Limb → Option WideLimb}
    (hmul : ∀ a b, mul a b = some (Limb.wideningMul a b)) (lo hi : Limbs N) {k : ℕ}
    (hk : k < N + N) (b c carry : Limb) :
    carryingMacAtChecked mul lo hi k hk b c carry = some (carryingMacAt lo hi k hk b c carry) := by
  rw [carryingMacAtChecked, carryingMacAt]
  split
  · simp only [Limb.carryingMacChecked_eq hmul]
    rfl
  · simp only [Limb.carryingMacChecked_eq hmul]
    rfl

/-- The checks of a product never fail. -/
theorem wideningMulChecked_eq {mul : Limb → Limb → Option WideLimb}
    (hmul : ∀ a b, mul a b = some (Limb.wideningMul a b)) (a b : Uint N) :
    wideningMulChecked mul a b = some (a.wideningMul b) := by
  rw [wideningMulChecked, tryFold_eq_some fun i hi s => ?_]
  · rfl
  · rw [tryFold_eq_some fun j hj t => carryingMacAtChecked_eq hmul ..]
    rfl

/-- **The product is exact.** No accumulation of limbs overflows on the way, neither with a wide
multiplication nor with the multiplication by halves, and the two give the same limb and the same
carry at every place. -/
theorem wideningMul_exact (a b : Uint N) :
    (a.wideningMul b).2.toNat * 2 ^ (64 * N) + (a.wideningMul b).1.toNat = a.toNat * b.toNat ∧
    wideningMulChecked Limb.wideningMulChecked a b = some (a.wideningMul b) ∧
    wideningMulChecked Limb.wideningMulWasmChecked a b = some (a.wideningMul b) ∧
    ∀ x y z carry : Limb,
      Limb.wideningMulWasm y z = Limb.wideningMul y z ∧
      Limb.carryingMacWasm x y z carry = Limb.carryingMac x y z carry ∧
      (Limb.carryingMac x y z carry).1.toNat + 2 ^ 64 * (Limb.carryingMac x y z carry).2.toNat =
        x.toNat + y.toNat * z.toNat + carry.toNat := by
  refine ⟨?_, wideningMulChecked_eq Limb.wideningMulChecked_eq a b,
    wideningMulChecked_eq (fun x y => (Limb.wideningMulWasm_spec x y).1) a b, fun x y z carry => ?_⟩
  · rw [← wideningMul_spec]
    ring
  · refine ⟨(Limb.wideningMulWasm_spec y z).2, ?_, Limb.carryingMac_spec x y z carry⟩
    rw [Limb.carryingMacWasm, Limb.wideningMulWasm_eq]
    rfl

end Uint

end ContractsStylus
