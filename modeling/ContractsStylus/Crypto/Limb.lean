import Mathlib.Data.BitVec
import Mathlib.Tactic.Ring

/-!
# Limbs

The arithmetic of a big integer's limbs. A limb has 64 bits, and every intermediate result is
computed with 128.

## Words and numbers

Each operation has one lemma that says, as an equation of numbers, what its result and its carry are
together. It also says that the sums of 128 bits in the middle do not wrap, which is not assumed:
the largest possible product and two more limbs fill these bits exactly.

## Main definitions

* `Limb.mac`, `Limb.carryingMac` — multiply, add and carry
* `Limb.adc`, `Limb.sbb` — add with carry, subtract with borrow

## Main results

* `Limb.mac_spec`, `Limb.carryingMac_spec`, `Limb.adc_spec`, `Limb.sbb_spec`,
  `Limb.sbbAssign_spec` — no intermediate result overflows
-/

namespace ContractsStylus

/-- A single limb of a big integer. -/
abbrev Limb := BitVec 64

/-- A wide limb, twice larger than `Limb`. -/
abbrev WideLimb := BitVec 128

namespace Limb

/-- `a as WideLimb`. -/
def wide (a : Limb) : WideLimb := a.setWidth 128

/-- `carry as WideLimb`. -/
def wideBool (carry : Bool) : WideLimb := (BitVec.ofBool carry).setWidth 128

/-- `a as Limb`: the lower 64 bits. -/
def truncate (a : WideLimb) : Limb := a.setWidth 64

/-- Multiply two limbs and return the widened result. -/
def wideningMul (a b : Limb) : WideLimb := wide a * wide b

/-- Calculate `a + b * c`, returning the lower 64 bits and the carry. -/
def mac (a b c : Limb) : Limb × Limb :=
  let tmp := wide a + wideningMul b c
  let carry := truncate (tmp >>> 64)
  (truncate tmp, carry)

/-- Calculate `a + b * c + carry`, returning the lower 64 bits and the carry. -/
def carryingMac (a b c carry : Limb) : Limb × Limb :=
  let tmp := wide a + wideningMul b c + wide carry
  let carry := truncate (tmp >>> 64)
  (truncate tmp, carry)

/-- Calculate `a + b + carry`, returning the result and the carry. -/
def adc (a b : Limb) (carry : Bool) : Limb × Bool :=
  let tmp := wide a + wide b + wideBool carry
  let carry := tmp >>> 64 ≠ 0
  (truncate tmp, carry)

/-- Sets `a = a + b + carry`, and returns the new carry. -/
def adcAssign (a b : Limb) (carry : Bool) : Limb × Bool := adc a b carry

/-- Calculate `a - b - borrow`, returning the result and the borrow. -/
def sbb (a b : Limb) (borrow : Bool) : Limb × Bool :=
  -- protects from overflow, when `a < b + borrow`
  let overflowProtection := (1 : WideLimb) <<< 64
  let tmp := overflowProtection + wide a - wide b - wideBool borrow
  let borrow := tmp >>> 64 = 0
  (truncate tmp, borrow)

/-- `overflowing_sub`. -/
def overflowingSub (a b : Limb) : Limb × Bool := (a - b, a < b)

/-- Sets `a = a - b - borrow`, and returns the borrow. -/
def sbbAssign (a b : Limb) (borrow : Bool) : Limb × Bool :=
  let (sub, borrow1) := overflowingSub a b
  let (sub, borrow2) := overflowingSub sub ((BitVec.ofBool borrow).setWidth 64)
  (sub, borrow1 || borrow2)

/-! ### What the operations compute -/

theorem toNat_wide (a : Limb) : (wide a).toNat = a.toNat := by
  rw [wide, BitVec.toNat_setWidth]
  exact Nat.mod_eq_of_lt (a.isLt.trans (by decide))

theorem toNat_wideBool (carry : Bool) : (wideBool carry).toNat = carry.toNat := by
  cases carry <;> rfl

/-- The product of two limbs fits a wide limb. -/
theorem toNat_wideningMul (a b : Limb) : (wideningMul a b).toNat = a.toNat * b.toNat := by
  rw [wideningMul, BitVec.toNat_mul, toNat_wide, toNat_wide]
  refine Nat.mod_eq_of_lt ?_
  calc
    a.toNat * b.toNat < 2 ^ 64 * 2 ^ 64 := Nat.mul_lt_mul'' a.isLt b.isLt
    _ = 2 ^ 128 := by norm_num

theorem mul_le (a b : Limb) : a.toNat * b.toNat ≤ (2 ^ 64 - 1) * (2 ^ 64 - 1) :=
  Nat.mul_le_mul (Nat.le_sub_one_of_lt a.isLt) (Nat.le_sub_one_of_lt b.isLt)

theorem toNat_truncate (a : WideLimb) : (truncate a).toNat = a.toNat % 2 ^ 64 :=
  BitVec.toNat_setWidth ..

theorem toNat_truncate_shiftRight (a : WideLimb) :
    (truncate (a >>> 64)).toNat = a.toNat / 2 ^ 64 := by
  rw [toNat_truncate, BitVec.toNat_ushiftRight, Nat.shiftRight_eq_div_pow]
  have ha := a.isLt
  omega

/-- **`a + b * c`**, in two limbs. -/
theorem mac_spec (a b c : Limb) :
    (mac a b c).1.toNat + 2 ^ 64 * (mac a b c).2.toNat = a.toNat + b.toNat * c.toNat := by
  have hmul := mul_le b c
  have ha := a.isLt
  have htmp : (wide a + wideningMul b c).toNat = a.toNat + b.toNat * c.toNat := by
    rw [BitVec.toNat_add, toNat_wide, toNat_wideningMul]
    exact Nat.mod_eq_of_lt (by omega)
  rw [mac, toNat_truncate, toNat_truncate_shiftRight, htmp]
  exact Nat.mod_add_div _ _

/-- **`a + b * c + carry`**, in two limbs. -/
theorem carryingMac_spec (a b c carry : Limb) :
    (carryingMac a b c carry).1.toNat + 2 ^ 64 * (carryingMac a b c carry).2.toNat =
      a.toNat + b.toNat * c.toNat + carry.toNat := by
  have hmul := mul_le b c
  have ha := a.isLt
  have hcarry := carry.isLt
  have htmp : (wide a + wideningMul b c + wide carry).toNat =
      a.toNat + b.toNat * c.toNat + carry.toNat := by
    rw [BitVec.toNat_add, BitVec.toNat_add, toNat_wide, toNat_wide, toNat_wideningMul,
      Nat.mod_add_mod]
    exact Nat.mod_eq_of_lt (by omega)
  rw [carryingMac, toNat_truncate, toNat_truncate_shiftRight, htmp]
  exact Nat.mod_add_div _ _

/-- **`a + b + carry`**, in a limb and a bit. -/
theorem adc_spec (a b : Limb) (carry : Bool) :
    (adc a b carry).1.toNat + 2 ^ 64 * (adc a b carry).2.toNat =
      a.toNat + b.toNat + carry.toNat := by
  have ha := a.isLt
  have hb := b.isLt
  have hcarry := Bool.toNat_le carry
  have htmp : (wide a + wide b + wideBool carry).toNat = a.toNat + b.toNat + carry.toNat := by
    rw [BitVec.toNat_add, BitVec.toNat_add, toNat_wide, toNat_wide, toNat_wideBool,
      Nat.mod_add_mod]
    exact Nat.mod_eq_of_lt (by omega)
  have hcarry' : (wide a + wide b + wideBool carry) >>> 64 ≠ 0 ↔
      2 ^ 64 ≤ a.toNat + b.toNat + carry.toNat := by
    rw [ne_eq, ← BitVec.toNat_inj, BitVec.toNat_ushiftRight, Nat.shiftRight_eq_div_pow, htmp,
      show (0 : WideLimb).toNat = 0 from rfl]
    omega
  rw [adc, toNat_truncate, htmp]
  simp only [hcarry']
  by_cases hge : 2 ^ 64 ≤ a.toNat + b.toNat + carry.toNat
  · rw [decide_eq_true hge, Bool.toNat_true]
    omega
  · rw [decide_eq_false hge, Bool.toNat_false]
    omega

/-- **`a - b - borrow`**, with what was borrowed. -/
theorem sbb_spec (a b : Limb) (borrow : Bool) :
    (sbb a b borrow).1.toNat + b.toNat + borrow.toNat =
      a.toNat + 2 ^ 64 * (sbb a b borrow).2.toNat := by
  have ha := a.isLt
  have hb := b.isLt
  have hborrow := Bool.toNat_le borrow
  have htmp : ((1 : WideLimb) <<< 64 + wide a - wide b - wideBool borrow).toNat =
      2 ^ 64 + a.toNat - b.toNat - borrow.toNat := by
    have hone : ((1 : WideLimb) <<< 64).toNat = 2 ^ 64 := rfl
    rw [BitVec.toNat_sub, BitVec.toNat_sub, BitVec.toNat_add, hone, toNat_wide, toNat_wide,
      toNat_wideBool]
    omega
  have hborrow' : ((1 : WideLimb) <<< 64 + wide a - wide b - wideBool borrow) >>> 64 = 0 ↔
      a.toNat < b.toNat + borrow.toNat := by
    rw [← BitVec.toNat_inj, BitVec.toNat_ushiftRight, Nat.shiftRight_eq_div_pow, htmp,
      show (0 : WideLimb).toNat = 0 from rfl]
    omega
  rw [sbb, toNat_truncate, htmp]
  simp only [hborrow']
  by_cases hlt : a.toNat < b.toNat + borrow.toNat
  · rw [decide_eq_true hlt, Bool.toNat_true]
    omega
  · rw [decide_eq_false hlt, Bool.toNat_false]
    omega

theorem overflowingSub_spec (a b : Limb) :
    (overflowingSub a b).1.toNat + b.toNat =
      a.toNat + 2 ^ 64 * (overflowingSub a b).2.toNat := by
  have ha := a.isLt
  have hb := b.isLt
  rw [overflowingSub, BitVec.toNat_sub]
  simp only [BitVec.lt_def]
  by_cases hlt : a.toNat < b.toNat
  · rw [decide_eq_true hlt, Bool.toNat_true]
    omega
  · rw [decide_eq_false hlt, Bool.toNat_false]
    omega

/-- The other subtraction with borrow. Only one of its two steps can borrow. -/
theorem sbbAssign_spec (a b : Limb) (borrow : Bool) :
    (sbbAssign a b borrow).1.toNat + b.toNat + borrow.toNat =
      a.toNat + 2 ^ 64 * (sbbAssign a b borrow).2.toNat := by
  have h1 := overflowingSub_spec a b
  have h2 := overflowingSub_spec (overflowingSub a b).1 ((BitVec.ofBool borrow).setWidth 64)
  have hbit : ((BitVec.ofBool borrow).setWidth 64).toNat = borrow.toNat := by
    cases borrow <;> rfl
  rw [hbit] at h2
  have hb := b.isLt
  have hborrow := Bool.toNat_le borrow
  have hsub := (overflowingSub (overflowingSub a b).1 ((BitVec.ofBool borrow).setWidth 64)).1.isLt
  rw [sbbAssign]
  cases hb1 : (overflowingSub a b).2 <;>
    cases hb2 : (overflowingSub (overflowingSub a b).1 ((BitVec.ofBool borrow).setWidth 64)).2 <;>
    simp only [hb1, hb2, Bool.or_false, Bool.or_true, Bool.toNat_true, Bool.toNat_false] at * <;>
    omega

end Limb

end ContractsStylus
