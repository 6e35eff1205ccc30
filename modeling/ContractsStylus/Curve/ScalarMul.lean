import ContractsStylus.Crypto.UintConversions
import ContractsStylus.Curve.ShortWeierstrassLaw
import ContractsStylus.Curve.TwistedEdwardsLaw

/-!
# Scalar multiplication

Every scalar multiplication of the library is double-and-add over bits, the highest first, without
the leading zeros. What it needs of a curve is that doubling and addition are those of a group, on
whatever coordinates represent its elements.

## One ladder

The source has this loop in several places: for a group in general, for each kind of curve with an
affine and with a projective base, and for powers in a field. All are folds over bits, and the
ladder of the library gives the invariant of such a fold for any monoid, given that the two
operations of the loop are right on representatives. Representatives are a relation and not a
function: coordinates stand for a point in many ways, and a law is an implication from
representatives to representatives.

Bits come with leading zeros or without them, from limbs, from slices of limbs or from a primitive
integer. All are read as numbers by `ofBitsBe`.

## Main definitions

* `CurveGroup` — the operations of a curve group that scalar multiplication uses
* `CurveGroup.mulBitsBe` — the method that all groups share
* `CurveGroup.Law` — the operations are those of a group

## Main results

* `Sw.law`, `Te.law` — the two kinds of curves
* `scalarMul_spec` — all scalar multiplications, powers, and the bits of scalars
-/

namespace ContractsStylus

/-- The operations of a group with projective elements `C` and affine elements `C'`. -/
structure CurveGroup (C C' : Type) where
  zero : C
  doubleInPlace : C → C
  addAssign : C → C → C
  addAssignAffine : C → C' → C

namespace CurveGroup

variable {C C' : Type} (group : CurveGroup C C')

/-- Computes `other * self`, where `other` is a big-endian bit representation of some integer. -/
def mulBitsBe (self : C) (other : List Bool) : C :=
  -- skip leading zeros
  (other.dropWhile fun b => !b).foldl (fun res b =>
    let res := group.doubleInPlace res
    if b then group.addAssign res self else res) group.zero

/-- The operations are those of the group `G`, whose elements projective and affine coordinates
represent. -/
structure Law {G : Type} [AddMonoid G] (represents : C → G → Prop)
    (representsAffine : C' → G → Prop) : Prop where
  zero : represents group.zero 0
  doubleInPlace : ∀ {p A}, represents p A → represents (group.doubleInPlace p) (A + A)
  addAssign : ∀ {p q A B}, represents p A → represents q B →
    represents (group.addAssign p q) (A + B)
  addAssignAffine : ∀ {p a A B}, represents p A → representsAffine a B →
    represents (group.addAssignAffine p a) (A + B)

variable {group} {G : Type} [AddMonoid G] {represents : C → G → Prop}
  {representsAffine : C' → G → Prop} {p : C} {a : C'} {A : G}

theorem Law.mulBitsBe (h : group.Law represents representsAffine) (hp : represents p A)
    (other : List Bool) : represents (group.mulBitsBe p other) (ofBitsBe other • A) :=
  ladder_nsmul h.zero (fun _ _ => h.doubleInPlace) (fun _ _ hr => h.addAssign hr hp) other

/-- Double-and-add with an affine base. -/
theorem Law.doubleAndAddAffine (h : group.Law represents representsAffine)
    (ha : representsAffine a A) (scalar : List Bool) :
    represents ((bitBeTrimmedIter scalar).foldl (fun res b =>
      if b then group.addAssignAffine (group.doubleInPlace res) a else group.doubleInPlace res)
      group.zero) (ofBitsBe scalar • A) :=
  ladder_nsmul h.zero (fun _ _ => h.doubleInPlace) (fun _ _ hr => h.addAssignAffine hr ha) scalar

end CurveGroup

variable {F : Type} [Field F]

/-- The group of a short Weierstrass curve. -/
def Sw.curveGroup [DecidableEq F] (P : SWCurveConfig F) :
    CurveGroup (Sw.Projective F) (Sw.Affine F) where
  zero := .zero
  doubleInPlace := Projective.doubleInPlace P
  addAssign := Projective.addAssign P
  addAssignAffine := Projective.addAssignAffine P

/-- The group of a twisted Edwards curve. -/
def Te.curveGroup (P : TECurveConfig F) : CurveGroup (Te.Projective F) (Te.Affine F) where
  zero := .zero
  doubleInPlace := Projective.doubleInPlace P
  addAssign := Projective.addAssign P
  addAssignAffine := Projective.addAssignAffine P

theorem Sw.law [DecidableEq F] {P : SWCurveConfig F} (hP : P.Elliptic) :
    (Sw.curveGroup P).Law (fun p (A : P.Point) => p.Represents A) fun a A => a.Represents A where
  zero := Projective.represents_zero
  doubleInPlace h := h.doubleInPlace hP
  addAssign hp hq := hp.addAssign hP hq
  addAssignAffine hp ha := hp.addAssignAffine hP ha

theorem Te.law {P : TECurveConfig F} (hP : P.Complete) :
    (Te.curveGroup P).Law (fun p (A : P.Point hP) => p.Represents A) fun a A =>
      a.Represents A where
  zero := Projective.represents_zero
  doubleInPlace h := h.doubleInPlace
  addAssign hp hq := hp.addAssign hq
  addAssignAffine hp ha := hp.addAssignAffine ha

/-- **Scalar multiplication** by bits with any leading zeros gives the multiple of the point by the
number of the bits, on short Weierstrass and on twisted Edwards curves, in affine and in projective
coordinates, wherever the operations are those of a group; which they are on every elliptic and on
every complete curve. Powers are computed by the same scheme, and the bits of a big integer, of a
slice of limbs and of a primitive integer are those of the number. -/
theorem scalarMul_spec [DecidableEq F] :
    (∀ (P : SWCurveConfig F) (G : Type) [AddMonoid G] (represents : Sw.Projective F → G → Prop)
        (representsAffine : Sw.Affine F → G → Prop),
      (Sw.curveGroup P).Law represents representsAffine →
      ∀ (p : Sw.Projective F) (a : Sw.Affine F) (A : G), represents p A → representsAffine a A →
      ∀ scalar : List Bool,
        represents (Sw.swDoubleAndAddAffine P a scalar) (ofBitsBe scalar • A) ∧
        represents (Sw.swDoubleAndAddProjective P p scalar) (ofBitsBe scalar • A) ∧
        represents ((Sw.curveGroup P).mulBitsBe p scalar) (ofBitsBe scalar • A)) ∧
    (∀ (P : TECurveConfig F) (G : Type) [AddMonoid G] (represents : Te.Projective F → G → Prop)
        (representsAffine : Te.Affine F → G → Prop),
      (Te.curveGroup P).Law represents representsAffine →
      ∀ (p : Te.Projective F) (a : Te.Affine F) (A : G), represents p A → representsAffine a A →
      ∀ scalar : List Bool,
        represents (P.mulAffine a scalar) (ofBitsBe scalar • A) ∧
        represents (P.mulProjective p scalar) (ofBitsBe scalar • A) ∧
        represents ((Te.curveGroup P).mulBitsBe p scalar) (ofBitsBe scalar • A)) ∧
    (∀ P : SWCurveConfig F, P.Elliptic → (Sw.curveGroup P).Law
      (fun p (A : P.Point) => p.Represents A) fun a A => a.Represents A) ∧
    (∀ (P : TECurveConfig F) (hP : P.Complete), (Te.curveGroup P).Law
      (fun p (A : P.Point hP) => p.Represents A) fun a A => a.Represents A) ∧
    (∀ (M : Type) [Monoid M] (x : M) (exp : List Bool), pow x exp = x ^ ofBitsBe exp) ∧
    (∀ (N : ℕ) (n : Uint N), ofBitsBe n.bitBeIter = n.toNat) ∧
    (∀ limbs : List Limb, ofBitsBe (Limb.sliceBitBeIter limbs) =
      Nat.ofDigits (2 ^ 64) (limbs.map BitVec.toNat)) ∧
    ∀ (w : ℕ) (n : BitVec w), ofBitsBe (primitiveBitBeIter n) = n.toNat :=
  ⟨fun _ _ _ _ _ h _ _ _ hp ha scalar =>
      ⟨h.doubleAndAddAffine ha scalar, h.mulBitsBe hp scalar, h.mulBitsBe hp scalar⟩,
    fun _ _ _ _ _ h _ _ _ hp ha scalar =>
      ⟨h.doubleAndAddAffine ha scalar, h.mulBitsBe hp scalar, h.mulBitsBe hp scalar⟩,
    fun _ => Sw.law, fun _ => Te.law, fun _ _ => pow_eq, fun _ => Uint.ofBitsBe_bitBeIter,
    Limb.ofBitsBe_sliceBitBeIter, fun _ => ofBitsBe_primitiveBitBeIter⟩

/-- On `y² = x³ + 1`, five times the point `(2, 3)`, with a leading zero. -/
theorem scalarMul_spec_five : ∃ A : (⟨0, 1, 1⟩ : SWCurveConfig ℚ).Point,
    (⟨2, 3, false⟩ : Sw.Affine ℚ).Represents A ∧
    (Sw.swDoubleAndAddAffine (⟨0, 1, 1⟩ : SWCurveConfig ℚ) ⟨2, 3, false⟩
      [false, true, false, true]).Represents (5 • A) := by
  have hP : (⟨0, 1, 1⟩ : SWCurveConfig ℚ).Elliptic := ⟨by norm_num, by norm_num⟩
  have hA : (⟨0, 1, 1⟩ : SWCurveConfig ℚ).curve.Nonsingular 2 3 :=
    hP.nonsingular_iff.mpr (by norm_num)
  let A : (⟨0, 1, 1⟩ : SWCurveConfig ℚ).Point := .some 2 3 hA
  have ha : (⟨2, 3, false⟩ : Sw.Affine ℚ).Represents A := ⟨rfl, rfl, rfl⟩
  obtain ⟨hsw, -⟩ := scalarMul_spec (F := ℚ)
  exact ⟨A, ha, (hsw _ _ _ _ (Sw.law hP) _ _ A ha.ofAffine ha [false, true, false, true]).1⟩

end ContractsStylus
