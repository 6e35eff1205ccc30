import ContractsStylus.Crypto.FpLaws
import ContractsStylus.Crypto.UintConversions
import Mathlib.Algebra.Field.ZMod
import Mathlib.Algebra.Ring.MinimalAxioms

/-!
# The field of reduced elements

Elements whose Montgomery form is reduced, with the operations of the code, are a commutative ring
that is isomorphic to the integers modulo the modulus, and a field when that is prime.

## Carrying the laws over

That multiplication is associative and distributes is not proved on limbs. Each operation has been
shown to do what its counterpart does to numbers modulo the modulus, and an element is determined by
the number that it stands for. So the map to the integers modulo the modulus is injective and
commutes with everything, and the laws hold because they hold there; the same map is the
isomorphism.

Only the operators of the source are instances. What it has as functions stays a function.

## Main definitions

* `Fp.Element` — a reduced element
* `Fp.Element.fromFp` — conversion from another field
* `Fp.Element.equivZMod` — the integer that an element stands for

## Main results

* `Fp.Element.instCommRing`, `Fp.Element.instField` — the laws of rings and fields
* `Fp.Element.toZMod_fromFp` — a conversion between fields keeps the integer modulo the modulus
-/

namespace ContractsStylus

namespace Fp

variable {N : ℕ} {P : FpParams N}

/-! ### One

One is `R` and zero is zero, and both have to be reduced. -/

theorem reduced_ZERO : (ZERO : Fp P).Reduced := by
  rw [Reduced, ZERO, newUnchecked, Uint.toNat_ZERO]
  exact P.p_pos

/-- `R` is not the modulus, which is odd. -/
theorem reduced_ONE : (ONE : Fp P).Reduced := by
  have hle : P.R.toNat ≤ P.p := by
    rw [FpParams.R, P.rem_add_one]
    exact Nat.mod_lt _ P.p_pos
  refine lt_of_le_of_ne hle fun heq => ?_
  have hdvd : P.p ∣ P.W := by
    rw [← Nat.modEq_zero_iff_dvd]
    exact P.R_modEq.symm.trans (Nat.modEq_zero_iff_dvd.mpr (dvd_of_eq heq.symm))
  have hone : P.p = 1 := (Nat.gcd_eq_left hdvd).symm.trans P.gcd_W
  exact absurd P.one_lt (by rw [show P.MODULUS.toNat = 1 from hone]; exact lt_irrefl 1)

theorem intoBigint_ONE : (ONE : Fp P).intoBigint.toNat = 1 := by
  rw [intoBigint_eq reduced_ONE (n := 1) (by rw [mul_one]; exact P.R_modEq)]
  exact Nat.mod_eq_of_lt P.one_lt

theorem intoBigint_ZERO : (ZERO : Fp P).intoBigint.toNat = 0 := by
  rw [intoBigint_eq reduced_ZERO (n := 0), Nat.zero_mod]
  rw [mul_zero, ZERO, newUnchecked, Uint.toNat_ZERO]

/-- **The integer determines the element** when the Montgomery form is reduced. -/
theorem eq_of_intoBigint_eq {a b : Fp P} (ha : a.Reduced) (hb : b.Reduced)
    (h : a.intoBigint.toNat = b.intoBigint.toNat) : a = b := by
  have hmod : a.montgomeryForm.toNat ≡ b.montgomeryForm.toNat [MOD P.p] := by
    refine a.intoBigint_modEq.symm.trans ?_
    rw [h]
    exact b.intoBigint_modEq
  have hform : a.montgomeryForm = b.montgomeryForm :=
    Uint.toNat_inj.mp (Nat.ModEq.eq_of_lt_of_lt hmod ha hb)
  cases a
  cases b
  exact congrArg _ hform

/-- A field element. What the operations give is reduced. -/
def Element (P : FpParams N) : Type := { a : Fp P // a.Reduced }

namespace Element

instance instDecidableEq : DecidableEq (Element P) :=
  inferInstanceAs (DecidableEq { a : Fp P // a.Reduced })

/-! ### Operations

Irreducible, so that a concrete modulus is never computed with in a proof. -/

@[irreducible] def fromBigint (num : Uint N) : Element P :=
  ⟨Fp.fromBigint num, reduced_fromBigint num⟩

@[irreducible] def intoBigint (self : Element P) : Uint N := self.val.intoBigint

/-- `fp_from_num!`, of the number that the literal denotes. -/
def fromNum (n : ℕ) : Element P := fromBigint (.fromNum n)

/-- `Fp::from_fp`, of an element of another field. -/
def fromFp {M : ℕ} {Q : FpParams M} (value : Element Q) : Option (Element P) :=
  (Uint.fromUint value.intoBigint).map fromBigint

@[irreducible] def zero : Element P := ⟨ZERO, reduced_ZERO⟩

@[irreducible] def one : Element P := ⟨ONE, reduced_ONE⟩

@[irreducible] def add (a b : Element P) : Element P :=
  ⟨addAssign a.val b.val, (intoBigint_addAssign a.property b.property).1⟩

@[irreducible] def sub (a b : Element P) : Element P :=
  ⟨subAssign a.val b.val, (intoBigint_subAssign a.property b.property).1⟩

@[irreducible] def neg (a : Element P) : Element P :=
  ⟨negInPlace a.val, (intoBigint_negInPlace a.property).1⟩

/-- `Fp::neg`, in constants. -/
@[irreducible] def constNeg (self : Element P) : Element P :=
  ⟨self.val.neg, self.val.neg_eq ▸ (intoBigint_negInPlace self.property).1⟩

@[irreducible] def mul (a b : Element P) : Element P :=
  ⟨mulAssign a.val b.val, .mul _ b.property⟩

instance instZero : Zero (Element P) := ⟨zero⟩

instance instOne : One (Element P) := ⟨one⟩

instance instAdd : Add (Element P) := ⟨add⟩

instance instSub : Sub (Element P) := ⟨sub⟩

instance instNeg : Neg (Element P) := ⟨neg⟩

instance instMul : Mul (Element P) := ⟨mul⟩

/-- The negation in constants is the same. -/
theorem constNeg_eq (a : Element P) : a.constNeg = -a := by
  refine Subtype.ext ?_
  change a.constNeg.val = a.neg.val
  rw [constNeg, neg]
  exact a.val.neg_eq

/-! ### The integers modulo the modulus

The map is injective and commutes with the operations; the ring is pulled back along it, and it is
an isomorphism then. -/

/-- The integer that an element stands for. -/
def toZMod (self : Element P) : ZMod P.p := self.intoBigint.toNat

theorem toZMod_eq (a : Element P) : a.toZMod = (a.val.intoBigint.toNat : ZMod P.p) := by
  rw [toZMod, intoBigint]

theorem intoBigint_lt (a : Element P) : a.intoBigint.toNat < P.p := by
  rw [intoBigint]
  exact Fp.intoBigint_lt a.property

theorem val_toZMod (a : Element P) : a.toZMod.val = a.intoBigint.toNat :=
  ZMod.val_cast_of_lt a.intoBigint_lt

theorem toZMod_injective : Function.Injective (toZMod : Element P → ZMod P.p) := by
  intro a b h
  refine Subtype.ext (eq_of_intoBigint_eq a.property b.property ?_)
  rw [← intoBigint, ← intoBigint, ← val_toZMod, ← val_toZMod, h]

/-- The integer is reduced on the way. -/
theorem intoBigint_fromBigint (num : Uint N) :
    (fromBigint num : Element P).intoBigint.toNat = num.toNat % P.p := by
  rw [intoBigint, fromBigint, Fp.intoBigint_fromBigint]

theorem toZMod_fromBigint (num : Uint N) :
    (fromBigint num : Element P).toZMod = (num.toNat : ZMod P.p) := by
  rw [toZMod, intoBigint_fromBigint, ZMod.natCast_mod]

@[simp] theorem toZMod_zero : (0 : Element P).toZMod = 0 := by
  show (zero : Element P).toZMod = 0
  rw [toZMod_eq, zero, intoBigint_ZERO, Nat.cast_zero]

@[simp] theorem toZMod_one : (1 : Element P).toZMod = 1 := by
  show (one : Element P).toZMod = 1
  rw [toZMod_eq, one, intoBigint_ONE, Nat.cast_one]

@[simp] theorem toZMod_add (a b : Element P) : (a + b).toZMod = a.toZMod + b.toZMod := by
  show (add a b).toZMod = _
  rw [toZMod_eq, toZMod_eq, toZMod_eq, add,
    (intoBigint_addAssign a.property b.property).2, ZMod.natCast_mod, Nat.cast_add]

@[simp] theorem toZMod_mul (a b : Element P) : (a * b).toZMod = a.toZMod * b.toZMod := by
  have hmul : (mulAssign a.val b.val).intoBigint.toNat =
      a.val.intoBigint.toNat * b.val.intoBigint.toNat % P.p := intoBigint_mul a.val b.property
  show (mul a b).toZMod = _
  rw [toZMod_eq, toZMod_eq, toZMod_eq, mul, hmul, ZMod.natCast_mod, Nat.cast_mul]

@[simp] theorem toZMod_sub (a b : Element P) : (a - b).toZMod = a.toZMod - b.toZMod := by
  show (sub a b).toZMod = _
  rw [toZMod_eq, toZMod_eq, toZMod_eq, sub, ← Int.cast_natCast,
    (intoBigint_subAssign a.property b.property).2, ZMod.intCast_mod, Int.cast_sub,
    Int.cast_natCast, Int.cast_natCast]

@[simp] theorem toZMod_neg (a : Element P) : (-a).toZMod = -a.toZMod := by
  show (neg a).toZMod = _
  rw [toZMod_eq, toZMod_eq, neg, ← Int.cast_natCast,
    (intoBigint_negInPlace a.property).2, ZMod.intCast_mod, Int.cast_neg, Int.cast_natCast]

/-- **Reduced elements are a commutative ring**, with the operations of the code. -/
instance instCommRing : CommRing (Element P) where
  __ := CommRing.ofMinimalAxioms (R := Element P)
    (fun a b c => toZMod_injective (by simp only [toZMod_add, add_assoc]))
    (fun a => toZMod_injective (by simp only [toZMod_add, toZMod_zero, zero_add]))
    (fun a => toZMod_injective (by
      simp only [toZMod_add, toZMod_neg, toZMod_zero, neg_add_cancel]))
    (fun a b c => toZMod_injective (by simp only [toZMod_mul, mul_assoc]))
    (fun a b => toZMod_injective (by simp only [toZMod_mul, mul_comm]))
    (fun a => toZMod_injective (by simp only [toZMod_mul, toZMod_one, one_mul]))
    (fun a b c => toZMod_injective (by simp only [toZMod_mul, toZMod_add, mul_add]))
  sub := fun a b => a - b
  sub_eq_add_neg := fun a b =>
    toZMod_injective (by simp only [toZMod_sub, toZMod_add, toZMod_neg, sub_eq_add_neg])

theorem toZMod_fromNum {n : ℕ} (h : n < 2 ^ (64 * N)) : (fromNum n : Element P).toZMod = n := by
  rw [fromNum, toZMod_fromBigint, Uint.toNat_fromNum h]

theorem toZMod_fromNum_val (z : ZMod P.p) : (fromNum z.val : Element P).toZMod = z := by
  have : NeZero P.p := ⟨P.p_pos.ne'⟩
  rw [toZMod_fromNum (z.val_lt.trans P.p_lt_W), ZMod.natCast_zmod_val]

/-- **The ring is that of the integers modulo the modulus.** -/
def equivZMod : Element P ≃+* ZMod P.p where
  toFun := toZMod
  invFun := fun z => fromNum z.val
  left_inv := fun _ => toZMod_injective (toZMod_fromNum_val _)
  right_inv := toZMod_fromNum_val
  map_mul' := toZMod_mul
  map_add' := toZMod_add

theorem toZMod_eq_zero {a : Element P} : a.toZMod = 0 ↔ a = 0 :=
  map_eq_zero_iff equivZMod toZMod_injective

/-- **From another field.** What fits the limbs is converted, modulo the modulus. -/
theorem toZMod_fromFp {M : ℕ} {Q : FpParams M} (h : Q.p ≤ 2 ^ (64 * N)) (value : Element Q) :
    ∃ a : Element P, fromFp value = some a ∧ a.toZMod = (value.intoBigint.toNat : ZMod P.p) := by
  obtain ⟨num, hnum, hvalue⟩ := Uint.exists_fromUint (value.intoBigint_lt.trans_le h)
  refine ⟨fromBigint num, ?_, ?_⟩
  · rw [fromFp, hnum, Option.map_some]
  · rw [toZMod_fromBigint, hvalue]

/-! ### Inverses

The inverse of the field is taken from the integers modulo the modulus, and the one of the code is
compared with it in the module on inverses. -/

/-- The inverse modulo the modulus, and zero of zero. -/
instance instInv : Inv (Element P) := ⟨fun a => equivZMod.symm a.toZMod⁻¹⟩

@[simp] theorem toZMod_inv (a : Element P) : a⁻¹.toZMod = a.toZMod⁻¹ :=
  equivZMod.apply_symm_apply _

/-- **With a prime modulus** it is a field. -/
instance instField [Fact P.p.Prime] : Field (Element P) where
  __ := instCommRing
  inv := fun a => a⁻¹
  exists_pair_ne := ⟨0, 1, fun h => by
    have hone := congrArg toZMod h
    rw [toZMod_zero, toZMod_one] at hone
    exact zero_ne_one hone⟩
  mul_inv_cancel := fun a ha => toZMod_injective (by
    rw [toZMod_mul, toZMod_inv, toZMod_one, mul_inv_cancel₀ (toZMod_eq_zero.not.mpr ha)])
  inv_zero := toZMod_injective (by rw [toZMod_inv, toZMod_zero, inv_zero])
  nnqsmul := _
  nnqsmul_def := fun _ _ => rfl
  qsmul := _
  qsmul_def := fun _ _ => rfl

end Element

end Fp

end ContractsStylus
