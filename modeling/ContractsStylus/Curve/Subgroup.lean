import ContractsStylus.Crypto.FpField
import ContractsStylus.Curve.ScalarMul
import Mathlib.GroupTheory.OrderOfElement

/-!
# Subgroups of prime order

Of the group of a curve, only the points are used whose order divides the modulus of the scalar
field. The constructors of points check that, a multiplication by the cofactor is to lead there,
and a multiplication by the inverse of the cofactor is to undo it for points that are there already.

## What is assumed

The statements are about any curve and any constants. That a multiplication by the cofactor leads to
the subgroup is true of a point whose order divides the product of the cofactor and the modulus,
which is a fact about the curve; that the other constant undoes it needs that it is the inverse,
which is a fact about the two numbers. Both are hypotheses at the place where they are used, and the
modules on curves by name discharge them. Short Weierstrass curves skip the check if the cofactor is
one, and the statement says so.

## Main definitions

* `CurveConfig` — the cofactor of a curve and its inverse
* `Te.Affine.isInPrimeOrderSubgroup`, `Te.Affine.new` — the check and the checked constructor
* `Te.Affine.clearCofactor`, `Te.Affine.mulByCofactorInv` — multiplication by the two constants
* the same for short Weierstrass curves

## Main results

* `subgroup_laws` — what the checks and the multiplications do, on both kinds of curves
-/

namespace ContractsStylus

/-- The constants of a curve group whose scalar field is that of `R`. -/
structure CurveConfig {N : ℕ} (R : FpParams N) where
  /-- The cofactor of this curve, represented as a sequence of little-endian limbs. -/
  COFACTOR : List Limb
  COFACTOR_INV : Fp.Element R

namespace CurveConfig

variable {N : ℕ} {R : FpParams N} (c : CurveConfig R)

/-- Whether the cofactor is one. -/
def cofactorIsOne : Bool :=
  match c.COFACTOR with
  | limb :: limbs => limb = 1 && limbs.all (· = 0)
  | [] => false

/-- The cofactor as a number. -/
def cofactor : ℕ := Nat.ofDigits (2 ^ 64) (c.COFACTOR.map BitVec.toNat)

theorem ofDigits_eq_zero {limbs : List Limb} :
    Nat.ofDigits (2 ^ 64) (limbs.map BitVec.toNat) = 0 ↔ ∀ limb ∈ limbs, limb = 0 := by
  induction limbs with
  | nil => simp
  | cons limb limbs ih =>
    rw [List.map_cons, Nat.ofDigits_cons, List.forall_mem_cons, ← ih]
    rw [Nat.add_eq_zero_iff, Nat.mul_eq_zero]
    simp [BitVec.toNat_eq]

theorem cofactorIsOne_iff : c.cofactorIsOne = true ↔ c.cofactor = 1 := by
  rw [cofactorIsOne, cofactor]
  cases c.COFACTOR with
  | nil => simp
  | cons limb limbs =>
    have hlt := limb.isLt
    simp only [Bool.and_eq_true, decide_eq_true_iff, List.all_eq_true]
    rw [← ofDigits_eq_zero, List.map_cons, Nat.ofDigits_cons, BitVec.toNat_eq]
    change limb.toNat = 1 ∧ _ ↔ _
    omega

end CurveConfig

/-! ### Twisted Edwards curves

The check is made by `new`, after the one for the equation of the curve. Every multiplication is by
the limbs of a number, highest bit first. -/

namespace Te.Affine

variable {F : Type} [Field F] [DecidableEq F] (P : TECurveConfig F)
variable {N : ℕ} {R : FpParams N} (c : CurveConfig R)

/-- Checks that the point is in the prime-order subgroup, if it is on the curve. -/
def isInPrimeOrderSubgroup (R : FpParams N) (self : Affine F) : Bool :=
  (P.mulAffine self R.MODULUS.bitBeIter).isZero

/-- Construct a new group element. It panics on what is not a point of the subgroup. -/
def new (R : FpParams N) (x y : F) : Option (Affine F) :=
  let p := newUnchecked x y
  if p.isOnCurve P && p.isInPrimeOrderSubgroup P R then some p else none

def mulByCofactorToGroup (self : Affine F) : Projective F :=
  P.mulAffine self (Limb.sliceBitBeIter c.COFACTOR)

def mulByCofactor (self : Affine F) : Option (Affine F) :=
  ofProjective (self.mulByCofactorToGroup P c)

/-- Performs cofactor clearing. -/
def clearCofactor (self : Affine F) : Option (Affine F) := self.mulByCofactor P c

/-- Multiplies this element by the inverse of the cofactor in the scalar field. -/
def mulByCofactorInv (self : Affine F) : Option (Affine F) :=
  ofProjective (P.mulAffine self c.COFACTOR_INV.intoBigint.bitBeIter)

end Te.Affine

/-! ### Short Weierstrass curves

The same functions, but for a curve whose cofactor is one, where the check answers at once. Affine
coordinates always exist, so nothing is optional. -/

namespace Sw.Affine

variable {F : Type} [Field F] [DecidableEq F] (P : SWCurveConfig F)
variable {N : ℕ} {R : FpParams N} (c : CurveConfig R)

/-- Checks that the point is in the prime-order subgroup. With a cofactor of one all points are. -/
def isInPrimeOrderSubgroup (self : Affine F) : Bool :=
  c.cofactorIsOne || (swDoubleAndAddAffine P self R.MODULUS.bitBeIter).isZero

/-- Construct a new group element. It panics on what is not a point of the subgroup. -/
def new (x y : F) : Option (Affine F) :=
  let point : Affine F := ⟨x, y, false⟩
  if point.isOnCurve P && point.isInPrimeOrderSubgroup P c then some point else none

def mulByCofactorToGroup (self : Affine F) : Projective F :=
  swDoubleAndAddAffine P self (Limb.sliceBitBeIter c.COFACTOR)

def mulByCofactor (self : Affine F) : Affine F := ofProjective (self.mulByCofactorToGroup P c)

/-- Performs cofactor clearing. -/
def clearCofactor (self : Affine F) : Affine F := self.mulByCofactor P c

/-- Multiplies this element by the inverse of the cofactor in the scalar field. -/
def mulByCofactorInv (self : Affine F) : Affine F :=
  ofProjective (swDoubleAndAddAffine P self c.COFACTOR_INV.intoBigint.bitBeIter)

end Sw.Affine

/-! ### Points of the subgroup

Each function is a multiplication by a number, so what is said of it is said in the group of points.
What is said of groups comes first, and both kinds of curves use it. -/

/-- Multiples of an element depend on numbers modulo a multiple of its order. -/
theorem nsmul_eq_of_natCast_eq {G : Type*} [AddMonoid G] {A : G} {r m n : ℕ} (hA : r • A = 0)
    (h : (m : ZMod r) = n) : m • A = n • A := by
  rw [ZMod.natCast_eq_natCast_iff] at h
  rw [nsmul_eq_mod_nsmul m hA, nsmul_eq_mod_nsmul n hA, h]

/-- The multiples of an element by those of the scalar field, if its modulus is a multiple of the
order. -/
def scalarHom {G : Type*} [AddCommGroup G] {N : ℕ} {R : FpParams N} {B : G} (hB : R.p • B = 0) :
    Fp.Element R →+ G where
  toFun k := k.intoBigint.toNat • B
  map_zero' := by
    refine (nsmul_eq_of_natCast_eq hB ?_).trans (zero_nsmul B)
    rw [Nat.cast_zero]
    exact Fp.Element.toZMod_zero
  map_add' j k := by
    rw [← add_nsmul]
    refine nsmul_eq_of_natCast_eq hB ?_
    rw [Nat.cast_add]
    exact Fp.Element.toZMod_add j k

/-- **Multiples are numbered** by the elements of the scalar field, if its modulus is the order. -/
theorem existsUnique_scalar {G : Type*} [AddGroup G] {N : ℕ} {R : FpParams N} {A B : G}
    (hB : addOrderOf B = R.p) (hA : A ∈ AddSubgroup.zmultiples B) :
    ∃! k : Fp.Element R, k.intoBigint.toNat • B = A := by
  have hfin : IsOfFinAddOrder B := addOrderOf_pos_iff.mp (hB ▸ R.p_pos)
  obtain ⟨n, rfl⟩ := (AddSubmonoid.mem_multiples_iff _ _).mp
    (hfin.mem_multiples_iff_mem_zmultiples.mpr hA)
  have heq : ∀ k : Fp.Element R, k.intoBigint.toNat • B = n • B ↔ k.toZMod = n := fun k => by
    rw [nsmul_eq_nsmul_iff_modEq, hB, ← ZMod.natCast_eq_natCast_iff]
    rfl
  refine ⟨Fp.Element.equivZMod.symm n, (heq _).mpr ?_, fun k hk => ?_⟩
  · exact Fp.Element.equivZMod.apply_symm_apply _
  · exact Fp.Element.equivZMod.eq_symm_apply.mpr ((heq k).mp hk)

section Laws

variable {F : Type} [Field F] [DecidableEq F] {N : ℕ} {R : FpParams N} {c : CurveConfig R}

/-- The inverse of the cofactor is one, modulo the order of the subgroup. -/
def CurveConfig.Inverse (c : CurveConfig R) : Prop :=
  (c.cofactor : ZMod R.p) * c.COFACTOR_INV.toZMod = 1

/-- The inverse of the cofactor, by computation. -/
theorem CurveConfig.inverse_of_mod {n : ℕ} (hinv : c.COFACTOR_INV = .fromNum n)
    (hn : n < 2 ^ (64 * N)) (h : c.cofactor * n ≡ 1 [MOD R.p]) : c.Inverse := by
  have hcast := (ZMod.natCast_eq_natCast_iff _ _ _).mpr h
  rw [Nat.cast_mul, Nat.cast_one] at hcast
  rw [CurveConfig.Inverse, hinv, Fp.Element.toZMod_fromNum hn, hcast]

theorem CurveConfig.Inverse.coprime (h : c.Inverse) : c.cofactor.Coprime R.p :=
  (ZMod.isUnit_iff_coprime _ _).mp (.of_mul_eq_one _ h)

theorem CurveConfig.Inverse.nsmul {G : Type*} [AddCommMonoid G] {A : G} (h : c.Inverse)
    (hA : R.p • A = 0) : (c.cofactor * c.COFACTOR_INV.intoBigint.toNat) • A = A := by
  conv_rhs => rw [← one_nsmul A]
  refine nsmul_eq_of_natCast_eq hA ?_
  rw [Nat.cast_mul, Nat.cast_one]
  exact h

namespace Te

variable {P : TECurveConfig F} {hP : P.Complete} {a : Affine F} {A : P.Point hP}

theorem Affine.Represents.isInPrimeOrderSubgroup_iff (ha : a.Represents A) :
    a.isInPrimeOrderSubgroup P R = true ↔ R.p • A = 0 := by
  rw [Affine.isInPrimeOrderSubgroup, (ha.mulAffine _).isZero_iff, Uint.ofBitsBe_bitBeIter]
  rfl

theorem Affine.Represents.mulByCofactor (ha : a.Represents A) :
    ∃ b, a.mulByCofactor P c = some b ∧ b.Represents (c.cofactor • A) := by
  have hmul := ha.mulAffine (Limb.sliceBitBeIter c.COFACTOR)
  rw [Limb.ofBitsBe_sliceBitBeIter] at hmul
  exact ⟨_, (Projective.represents_iff.mp hmul).2, rfl⟩

theorem Affine.Represents.mulByCofactorInv (ha : a.Represents A) :
    ∃ b, a.mulByCofactorInv P c = some b ∧
      b.Represents (c.COFACTOR_INV.intoBigint.toNat • A) := by
  have hmul := ha.mulAffine c.COFACTOR_INV.intoBigint.bitBeIter
  rw [Uint.ofBitsBe_bitBeIter] at hmul
  exact ⟨_, (Projective.represents_iff.mp hmul).2, rfl⟩

theorem Affine.new_eq_some {x y : F} {b : Affine F} : Affine.new P R x y = some b ↔
    b = ⟨x, y⟩ ∧ ∃ B : P.Point hP, b.Represents B ∧ R.p • B = 0 := by
  unfold Affine.new
  dsimp only
  rw [ite_eq_iff]
  simp only [reduceCtorEq, and_false, or_false, Bool.and_eq_true, Option.some_inj]
  constructor
  · rintro ⟨⟨hcurve, hsub⟩, rfl⟩
    obtain ⟨B, hB⟩ : ∃ B : P.Point hP, (⟨x, y⟩ : Affine F).Represents B :=
      Affine.isOnCurve_iff.mp hcurve
    exact ⟨rfl, B, hB, hB.isInPrimeOrderSubgroup_iff.mp hsub⟩
  · rintro ⟨rfl, B, hB, hsub⟩
    exact ⟨⟨Affine.isOnCurve_iff.mpr ⟨B, hB⟩, hB.isInPrimeOrderSubgroup_iff.mpr hsub⟩, rfl⟩

/-- Clearing the cofactor leads to the subgroup, if the order of the point allows it. -/
theorem Affine.Represents.clearCofactor (ha : a.Represents A) (hA : (c.cofactor * R.p) • A = 0) :
    ∃ b, a.clearCofactor P c = some b ∧ b.isInPrimeOrderSubgroup P R = true := by
  obtain ⟨b, hb, hrep⟩ := ha.mulByCofactor (c := c)
  refine ⟨b, hb, hrep.isInPrimeOrderSubgroup_iff.mpr ?_⟩
  rw [← mul_nsmul, hA]

/-- In the subgroup the two multiplications undo each other, in either order. -/
theorem Affine.Represents.mulByCofactor_inv (ha : a.Represents A) (hc : c.Inverse)
    (hA : R.p • A = 0) :
    (a.mulByCofactor P c >>= fun b => b.mulByCofactorInv P c) = some a ∧
      (a.mulByCofactorInv P c >>= fun b => b.mulByCofactor P c) = some a := by
  obtain ⟨b, hb, hrep⟩ := ha.mulByCofactor (c := c)
  obtain ⟨d, hd, hrep'⟩ := hrep.mulByCofactorInv (c := c)
  obtain ⟨b', hb', hrepInv⟩ := ha.mulByCofactorInv (c := c)
  obtain ⟨d', hd', hrepInv'⟩ := hrepInv.mulByCofactor (c := c)
  rw [← mul_nsmul, hc.nsmul hA] at hrep'
  rw [← mul_nsmul, mul_comm, hc.nsmul hA] at hrepInv'
  rw [hb, hb', Option.bind_eq_bind, Option.bind_some, hd, Option.bind_some, hd']
  exact ⟨congrArg some (hrep'.trans (ha : a = _).symm),
    congrArg some (hrepInv'.trans (ha : a = _).symm)⟩

end Te

namespace Sw

variable {P : SWCurveConfig F} {a : Affine F} {A : P.Point}

theorem Affine.Represents.isInPrimeOrderSubgroup_iff (hP : P.Elliptic) (ha : a.Represents A) :
    a.isInPrimeOrderSubgroup P c = true ↔ c.cofactor = 1 ∨ R.p • A = 0 := by
  have hmul := (law hP).doubleAndAddAffine ha R.MODULUS.bitBeIter
  rw [Uint.ofBitsBe_bitBeIter] at hmul
  rw [Affine.isInPrimeOrderSubgroup, Bool.or_eq_true, c.cofactorIsOne_iff]
  exact or_congr_right hmul.isZero_iff

theorem Affine.Represents.mulByCofactor (hP : P.Elliptic) (ha : a.Represents A) :
    (a.mulByCofactor P c).Represents (c.cofactor • A) := by
  have hmul := (law hP).doubleAndAddAffine ha (Limb.sliceBitBeIter c.COFACTOR)
  rw [Limb.ofBitsBe_sliceBitBeIter] at hmul
  exact Projective.represents_iff.mp hmul

theorem Affine.Represents.mulByCofactorInv (hP : P.Elliptic) (ha : a.Represents A) :
    (a.mulByCofactorInv P c).Represents (c.COFACTOR_INV.intoBigint.toNat • A) := by
  have hmul := (law hP).doubleAndAddAffine ha c.COFACTOR_INV.intoBigint.bitBeIter
  rw [Uint.ofBitsBe_bitBeIter] at hmul
  exact Projective.represents_iff.mp hmul

theorem Affine.new_eq_some (hP : P.Elliptic) {x y : F} {b : Affine F} :
    Affine.new P c x y = some b ↔ b = ⟨x, y, false⟩ ∧
      ∃ B : P.Point, b.Represents B ∧ (c.cofactor = 1 ∨ R.p • B = 0) := by
  unfold Affine.new
  dsimp only
  rw [ite_eq_iff]
  simp only [reduceCtorEq, and_false, or_false, Bool.and_eq_true, Option.some_inj]
  constructor
  · rintro ⟨⟨hcurve, hsub⟩, rfl⟩
    obtain ⟨B, hB⟩ := (Affine.isOnCurve_iff hP).mp hcurve
    exact ⟨rfl, B, hB, (hB.isInPrimeOrderSubgroup_iff hP).mp hsub⟩
  · rintro ⟨rfl, B, hB, hsub⟩
    exact ⟨⟨(Affine.isOnCurve_iff hP).mpr ⟨B, hB⟩,
      (hB.isInPrimeOrderSubgroup_iff hP).mpr hsub⟩, rfl⟩

/-- Clearing the cofactor leads to the subgroup, if the order of the point allows it. -/
theorem Affine.Represents.clearCofactor (hP : P.Elliptic) (ha : a.Represents A)
    (hA : (c.cofactor * R.p) • A = 0) :
    (a.clearCofactor P c).isInPrimeOrderSubgroup P c = true := by
  refine ((ha.mulByCofactor hP).isInPrimeOrderSubgroup_iff hP).mpr (Or.inr ?_)
  rw [← mul_nsmul, hA]

/-- In the subgroup the two multiplications undo each other, in either order. -/
theorem Affine.Represents.mulByCofactor_inv (hP : P.Elliptic) (ha : a.Represents A)
    (hc : c.Inverse) (hA : R.p • A = 0) :
    ((a.mulByCofactor P c).mulByCofactorInv P c).Represents A ∧
      ((a.mulByCofactorInv P c).mulByCofactor P c).Represents A := by
  have hrep := (ha.mulByCofactor (c := c) hP).mulByCofactorInv (c := c) hP
  have hrepInv := (ha.mulByCofactorInv (c := c) hP).mulByCofactor (c := c) hP
  rw [← mul_nsmul, hc.nsmul hA] at hrep
  rw [← mul_nsmul, mul_comm, hc.nsmul hA] at hrepInv
  exact ⟨hrep, hrepInv⟩

end Sw

end Laws

/-- **Subgroups of prime order**, on complete twisted Edwards curves and on elliptic curves in short
Weierstrass form. The checked constructor accepts exactly the coordinates of the points whose order
divides the modulus of the scalar field, which with a cofactor of one are taken to be all. Clearing
the cofactor leads to a point that the check accepts, whenever the order of the point divides the
product of the two. If the constant for it is the inverse of the cofactor, multiplication by that
undoes multiplication by the cofactor on every point of the subgroup, and the other way round. -/
theorem subgroup_laws {F : Type} [Field F] [DecidableEq F] {N : ℕ} {R : FpParams N}
    (c : CurveConfig R) :
    (∀ (P : TECurveConfig F) (hP : P.Complete),
      (∀ (x y : F) (b : Te.Affine F), Te.Affine.new P R x y = some b ↔
        b = ⟨x, y⟩ ∧ ∃ B : P.Point hP, b.Represents B ∧ R.p • B = 0) ∧
      ∀ (a : Te.Affine F) (A : P.Point hP), a.Represents A →
        (a.isInPrimeOrderSubgroup P R = true ↔ R.p • A = 0) ∧
        ((c.cofactor * R.p) • A = 0 →
          ∃ b, a.clearCofactor P c = some b ∧ b.isInPrimeOrderSubgroup P R = true) ∧
        (c.Inverse → R.p • A = 0 →
          (a.mulByCofactor P c >>= fun b => b.mulByCofactorInv P c) = some a ∧
          (a.mulByCofactorInv P c >>= fun b => b.mulByCofactor P c) = some a)) ∧
    ∀ P : SWCurveConfig F, P.Elliptic →
      (∀ (x y : F) (b : Sw.Affine F), Sw.Affine.new P c x y = some b ↔
        b = ⟨x, y, false⟩ ∧
          ∃ B : P.Point, b.Represents B ∧ (c.cofactor = 1 ∨ R.p • B = 0)) ∧
      ∀ (a : Sw.Affine F) (A : P.Point), a.Represents A →
        (a.isInPrimeOrderSubgroup P c = true ↔ c.cofactor = 1 ∨ R.p • A = 0) ∧
        ((c.cofactor * R.p) • A = 0 →
          (a.clearCofactor P c).isInPrimeOrderSubgroup P c = true) ∧
        (c.Inverse → R.p • A = 0 →
          ((a.mulByCofactor P c).mulByCofactorInv P c).Represents A ∧
          ((a.mulByCofactorInv P c).mulByCofactor P c).Represents A) := by
  refine ⟨fun P hP => ⟨fun x y b => Te.Affine.new_eq_some, fun a A ha => ⟨?_, ?_, ?_⟩⟩,
    fun P hP => ⟨fun x y b => Sw.Affine.new_eq_some hP, fun a A ha => ⟨?_, ?_, ?_⟩⟩⟩
  · exact ha.isInPrimeOrderSubgroup_iff
  · exact ha.clearCofactor
  · exact ha.mulByCofactor_inv
  · exact ha.isInPrimeOrderSubgroup_iff hP
  · exact ha.clearCofactor hP
  · exact ha.mulByCofactor_inv hP

/-- Over the integers modulo `13`, where `x² + y² = 1 + 7x²y²` and `y² = x³ + x` have twenty points
each. With a cofactor of `4` the points `(2, 9)` and `(4, 4)` are of the subgroup, and `(4, 2)` and
`(2, 6)` are led there. -/
theorem subgroup_laws_thirteen :
    ∃ (R : FpParams 1) (c : CurveConfig R) (P : TECurveConfig (ZMod 13))
      (Q : SWCurveConfig (ZMod 13)) (a a' : Te.Affine (ZMod 13)) (b b' : Sw.Affine (ZMod 13))
      (B : Q.Point), R.p = 5 ∧ c.cofactor = 4 ∧ P = ⟨1, 7, a⟩ ∧ Q = ⟨1, 0, 1⟩ ∧
      a = ⟨2, 9⟩ ∧ a' = ⟨4, 2⟩ ∧ b = ⟨4, 4, false⟩ ∧ b' = ⟨2, 6, false⟩ ∧
      Te.Affine.new P R 2 9 = some a ∧ a'.isInPrimeOrderSubgroup P R = false ∧
      (∃ d, a'.clearCofactor P c = some d ∧ d.isInPrimeOrderSubgroup P R = true) ∧
      (a.mulByCofactor P c >>= fun d => d.mulByCofactorInv P c) = some a ∧
      Sw.Affine.new Q c 4 4 = some b ∧ b'.isInPrimeOrderSubgroup Q c = false ∧
      (b'.clearCofactor Q c).isInPrimeOrderSubgroup Q c = true ∧ b.Represents B ∧
      ((b.mulByCofactor Q c).mulByCofactorInv Q c).Represents B := by
  let R : FpParams 1 := ⟨⟨#v[5]⟩, by decide, by decide⟩
  let c : CurveConfig R := ⟨[4], .fromNum 4⟩
  have hinv : c.Inverse := CurveConfig.inverse_of_mod rfl (by norm_num) (by decide)
  let P : TECurveConfig (ZMod 13) := ⟨1, 7, ⟨2, 9⟩⟩
  have hP : P.Complete := by
    refine ⟨by decide, by decide, ⟨1, (one_mul 1).symm⟩, ?_⟩
    rintro ⟨r, hr⟩
    exact (by decide : ∀ r : ZMod 13, 7 ≠ r * r) r hr
  let Q : SWCurveConfig (ZMod 13) := ⟨1, 0, 1⟩
  have hQ : Q.Elliptic := ⟨by decide, by decide⟩
  obtain ⟨A, hA⟩ : ∃ A : P.Point hP, (⟨2, 9⟩ : Te.Affine (ZMod 13)).Represents A :=
    Te.Affine.isOnCurve_iff.mp (by decide)
  obtain ⟨A', hA'⟩ : ∃ A' : P.Point hP, (⟨4, 2⟩ : Te.Affine (ZMod 13)).Represents A' :=
    Te.Affine.isOnCurve_iff.mp (by decide)
  obtain ⟨B, hB⟩ : ∃ B : Q.Point, (⟨4, 4, false⟩ : Sw.Affine (ZMod 13)).Represents B :=
    (Sw.Affine.isOnCurve_iff hQ).mp (by decide)
  obtain ⟨B', hB'⟩ : ∃ B' : Q.Point, (⟨2, 6, false⟩ : Sw.Affine (ZMod 13)).Represents B' :=
    (Sw.Affine.isOnCurve_iff hQ).mp (by decide)
  have htwenty : ofBitsBe (bitsBe 5 20) = c.cofactor * R.p := by decide
  have hAtwenty := (hA'.mulAffine (bitsBe 5 20)).isZero_iff.mp (by decide +kernel)
  have hBtwenty :=
    ((Sw.law hQ).doubleAndAddAffine hB' (bitsBe 5 20)).isZero_iff.mp (by decide +kernel)
  rw [htwenty] at hAtwenty hBtwenty
  obtain ⟨hte, hsw⟩ := subgroup_laws (F := ZMod 13) c
  obtain ⟨hnew, hlaws⟩ := hte P hP
  obtain ⟨hnew', hlaws'⟩ := hsw Q hQ
  have hAsub : R.p • A = 0 := (hlaws _ A hA).1.mp (by decide +kernel)
  have hBsub : R.p • B = 0 :=
    ((hlaws' _ B hB).1.mp (by decide +kernel)).resolve_left (by decide)
  exact ⟨R, c, P, Q, _, _, _, _, B, by decide, by decide, rfl, rfl, rfl, rfl, rfl, rfl,
    (hnew 2 9 _).mpr ⟨rfl, A, hA, hAsub⟩, by decide +kernel, (hlaws _ A' hA').2.1 hAtwenty,
    ((hlaws _ A hA).2.2 hinv hAsub).1, (hnew' 4 4 _).mpr ⟨rfl, B, hB, .inr hBsub⟩,
    by decide +kernel, (hlaws' _ B' hB').2.1 hBtwenty, hB, ((hlaws' _ B hB).2.2 hinv hBsub).1⟩

end ContractsStylus
