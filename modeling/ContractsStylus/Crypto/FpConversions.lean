import ContractsStylus.Crypto.FpField
import Mathlib.Tactic.NormNum.Prime

/-!
# Field elements from integers

The conversions from the unsigned and the signed integers of up to 128 bits. An unsigned integer
goes through limbs, where one limb does not hold every `u128`; a signed one goes through its
absolute value, which the unsigned integers of the same size hold.

## Absolute values

The least signed integer of a size has an absolute value that is no signed integer of that size. The
source takes it with `unsigned_abs`, so it is an unsigned one of the same size, and nothing special
happens.

An unsigned integer of 128 bits takes two limbs. A field of one limb refuses the ones that do not
fit, and panics, which the source intends and tests. The statement about all conversions has that as
a condition on the number of limbs or on the integer, and no other.

## Main definitions

* `Fp.fromUnsignedInt`, `Fp.fromSignedInt` — the two kinds of conversions
* `Fp.Integer`, `Fp.fromInteger` — the integers of all types, and their conversion

## Main results

* `Fp.fromInteger_total` — the conversion is exact, and panics when limbs are missing
* `Fp.not_fromInteger_total` — with one limb it does
-/

namespace ContractsStylus

namespace Fp

variable {N : ℕ} {P : FpParams N} {w : ℕ}

/-- `From<$int>` of an unsigned integer. -/
def fromUnsignedInt (uintFrom : BitVec w → Result Empty (Uint N)) (other : BitVec w) :
    Result Empty (Fp P) := do
  let num ← uintFrom other
  pure (fromBigint num)

def fromU128 (other : BitVec 128) : Result Empty (Fp P) :=
  fromUnsignedInt (Uint.fromU128 P.pos) other

def fromU64 (other : BitVec 64) : Result Empty (Fp P) :=
  fromUnsignedInt (fun val => .ok (.fromU64 P.pos val)) other

def fromU32 (other : BitVec 32) : Result Empty (Fp P) :=
  fromUnsignedInt (fun val => .ok (.fromU32 P.pos val)) other

def fromU16 (other : BitVec 16) : Result Empty (Fp P) :=
  fromUnsignedInt (fun val => .ok (.fromU16 P.pos val)) other

def fromU8 (other : BitVec 8) : Result Empty (Fp P) :=
  fromUnsignedInt (fun val => .ok (.fromU8 P.pos val)) other

/-- `unsigned_abs`. -/
def unsignedAbs (x : BitVec w) : BitVec w := x.abs

/-- `is_positive`. -/
def isPositive (x : BitVec w) : Bool := 0 < x.toInt

/-- `From<$int>` of a signed integer. -/
def fromSignedInt (unsignedFrom : BitVec w → Result Empty (Fp P)) (other : BitVec w) :
    Result Empty (Fp P) := do
  let abs ← unsignedFrom (unsignedAbs other)
  if isPositive other then pure abs else pure abs.negInPlace

def fromI128 (other : BitVec 128) : Result Empty (Fp P) := fromSignedInt fromU128 other

def fromI64 (other : BitVec 64) : Result Empty (Fp P) := fromSignedInt fromU64 other

def fromI32 (other : BitVec 32) : Result Empty (Fp P) := fromSignedInt fromU32 other

def fromI16 (other : BitVec 16) : Result Empty (Fp P) := fromSignedInt fromU16 other

def fromI8 (other : BitVec 8) : Result Empty (Fp P) := fromSignedInt fromU8 other

/-- A primitive integer. -/
inductive Integer
  | u128 (val : BitVec 128)
  | u64 (val : BitVec 64)
  | u32 (val : BitVec 32)
  | u16 (val : BitVec 16)
  | u8 (val : BitVec 8)
  | i128 (val : BitVec 128)
  | i64 (val : BitVec 64)
  | i32 (val : BitVec 32)
  | i16 (val : BitVec 16)
  | i8 (val : BitVec 8)

/-- The number that an integer is. -/
def Integer.value : Integer → ℤ
  | u128 val => val.toNat
  | u64 val => val.toNat
  | u32 val => val.toNat
  | u16 val => val.toNat
  | u8 val => val.toNat
  | i128 val => val.toInt
  | i64 val => val.toInt
  | i32 val => val.toInt
  | i16 val => val.toInt
  | i8 val => val.toInt

/-- `From`, for the type of the integer. -/
def fromInteger : Integer → Result Empty (Fp P)
  | .u128 val => fromU128 val
  | .u64 val => fromU64 val
  | .u32 val => fromU32 val
  | .u16 val => fromU16 val
  | .u8 val => fromU8 val
  | .i128 val => fromI128 val
  | .i64 val => fromI64 val
  | .i32 val => fromI32 val
  | .i16 val => fromI16 val
  | .i8 val => fromI8 val

/-! ### The two kinds of conversions

`Converts` is the statement about one integer. It is proved for the two kinds that the source has,
with the conversions of limbs as an argument. -/

/-- The number does not fit the limbs. -/
def TooLarge (N : ℕ) (value : ℤ) : Prop := N = 1 ∧ 2 ^ 64 ≤ |value|

/-- The result of a conversion is the number modulo the modulus, or a panic when the number does
not fit the limbs. -/
def Converts (value : ℤ) (result : Result Empty (Fp P)) : Prop :=
  (TooLarge N value → result = .panic "u128 is too large to fit") ∧
    (¬TooLarge N value → ∃ a, result = .ok a ∧ a.Reduced ∧
      (a.intoBigint.toNat : ℤ) = value % P.MODULUS.toNat)

theorem tooLarge_natCast {n : ℕ} : TooLarge N n ↔ N = 1 ∧ 2 ^ 64 ≤ n := by
  rw [TooLarge, Nat.abs_cast]
  exact and_congr_right fun _ => by norm_cast

theorem exists_fromBigint {num : Uint N} {n : ℕ} (h : num.toNat = n) :
    ∃ a : Fp P, (Except.ok (fromBigint num) : Result Empty (Fp P)) = .ok a ∧ a.Reduced ∧
      (a.intoBigint.toNat : ℤ) = (n : ℤ) % P.MODULUS.toNat := by
  refine ⟨_, rfl, reduced_fromBigint num, ?_⟩
  rw [intoBigint_fromBigint, h]
  rfl

theorem converts_fromU128 (val : BitVec 128) :
    Converts val.toNat (fromU128 val : Result Empty (Fp P)) := by
  obtain ⟨hpanic, hok⟩ := Uint.fromU128_eq P.pos val
  rw [Converts, tooLarge_natCast, fromU128, fromUnsignedInt]
  refine ⟨fun h => ?_, fun h => ?_⟩
  · rw [hpanic h, panic_bind]
  · obtain ⟨num, hnum, hvalue⟩ := hok h
    rw [hnum, ok_bind]
    exact exists_fromBigint hvalue

/-- What a limb holds fits. -/
theorem converts_fromPrimitive (hw : w ≤ 64) (val : BitVec w) :
    Converts val.toNat
      (fromUnsignedInt (fun val => .ok (.fromPrimitive P.pos val)) val : Result Empty (Fp P)) := by
  have hlt : val.toNat < 2 ^ 64 := val.isLt.trans_le (Nat.pow_le_pow_right two_pos hw)
  rw [Converts, tooLarge_natCast, fromUnsignedInt, ok_bind]
  exact ⟨fun h => absurd h.2 (not_le.mpr hlt),
    fun _ => exists_fromBigint (Uint.toNat_fromPrimitive P.pos hw val)⟩

theorem toNat_unsignedAbs (x : BitVec w) : ((unsignedAbs x).toNat : ℤ) = |x.toInt| := by
  have hx := x.isLt
  rw [unsignedAbs, BitVec.toNat_abs, BitVec.toInt_eq_msb_cond]
  split
  · rw [abs_of_nonpos (by omega)]
    omega
  · rw [Nat.abs_cast]

/-- **A signed integer** is converted with its absolute value, the most negative one included. -/
theorem converts_fromSignedInt {unsignedFrom : BitVec w → Result Empty (Fp P)}
    (h : ∀ val, Converts val.toNat (unsignedFrom val)) (x : BitVec w) :
    Converts x.toInt (fromSignedInt unsignedFrom x) := by
  obtain ⟨hpanic, hok⟩ := h (unsignedAbs x)
  have hlarge : TooLarge N (unsignedAbs x).toNat ↔ TooLarge N x.toInt := by
    rw [TooLarge, TooLarge, toNat_unsignedAbs, abs_abs]
  rw [hlarge] at hpanic hok
  refine ⟨fun hx => ?_, fun hx => ?_⟩
  · rw [fromSignedInt, hpanic hx, panic_bind]
  · obtain ⟨a, ha, hreduced, hvalue⟩ := hok hx
    rw [toNat_unsignedAbs] at hvalue
    rw [fromSignedInt, ha, ok_bind]
    by_cases hpos : 0 < x.toInt
    · refine ⟨a, if_pos (decide_eq_true hpos), hreduced, ?_⟩
      rw [hvalue, abs_of_pos hpos]
    · refine ⟨a.negInPlace, if_neg (by rw [isPositive, decide_eq_true_iff]; exact hpos),
        (intoBigint_negInPlace hreduced).1, ?_⟩
      rw [(intoBigint_negInPlace hreduced).2, hvalue, abs_of_nonpos (not_lt.mp hpos)]
      exact (Int.mod_modEq _ _).neg.trans (by rw [neg_neg])

/-! ### All types

The types of the integers are the constructors of `Integer`, so that one statement is about all of
them. -/

/-- **Conversion of integers.** For every number of limbs, every odd modulus that fits them and
every integer of every type, the conversion into the field gives a reduced element that stands for
the integer modulo the modulus, which for a negative integer is the remainder from below. The
exception is a field of one limb with an integer that does not fit a limb: then it panics. -/
theorem fromInteger_total (x : Integer) :
    (N = 1 ∧ 2 ^ 64 ≤ |x.value| →
      (fromInteger x : Result Empty (Fp P)) = .panic "u128 is too large to fit") ∧
    (¬(N = 1 ∧ 2 ^ 64 ≤ |x.value|) → ∃ a : Fp P, fromInteger x = .ok a ∧ a.Reduced ∧
      (a.intoBigint.toNat : ℤ) = x.value % P.MODULUS.toNat) := by
  change Converts x.value (fromInteger x)
  cases x with
  | u128 val => exact converts_fromU128 val
  | u64 val => exact converts_fromPrimitive le_rfl val
  | u32 val => exact converts_fromPrimitive (by decide) val
  | u16 val => exact converts_fromPrimitive (by decide) val
  | u8 val => exact converts_fromPrimitive (by decide) val
  | i128 val => exact converts_fromSignedInt converts_fromU128 val
  | i64 val => exact converts_fromSignedInt (converts_fromPrimitive le_rfl) val
  | i32 val => exact converts_fromSignedInt (converts_fromPrimitive (by decide)) val
  | i16 val => exact converts_fromSignedInt (converts_fromPrimitive (by decide)) val
  | i8 val => exact converts_fromSignedInt (converts_fromPrimitive (by decide)) val

/-- **With one limb** it is not total: `u128` has larger numbers. -/
theorem not_fromInteger_total : ¬∀ (N : ℕ) (P : FpParams N) (x : Integer),
    P.MODULUS.toNat.Prime → ∃ a : Fp P, fromInteger x = .ok a ∧
      (a.intoBigint.toNat : ℤ) = x.value % P.MODULUS.toNat := by
  intro h
  let P : FpParams 1 := ⟨⟨#v[1000003]⟩, by decide, by decide⟩
  have hprime : P.MODULUS.toNat.Prime := by
    rw [show P.MODULUS.toNat = 1000003 by decide]
    norm_num
  obtain ⟨a, ha, -⟩ := h 1 P (.u128 (BitVec.ofNat 128 (2 ^ 64))) hprime
  have hpanic : (fromInteger (.u128 (BitVec.ofNat 128 (2 ^ 64))) : Result Empty (Fp P)) =
      .panic "u128 is too large to fit" := rfl
  exact panic_ne_ok (hpanic.symm.trans ha)

end Fp

end ContractsStylus
