import ContractsStylus.Crypto.FieldOps

/-!
# Short Weierstrass curves

Points of a curve `y² = x³ + a x + b` in affine and in Jacobian coordinates. The formulas for
Jacobian coordinates are incomplete: which one is used depends on whether one of the points is at
infinity, and on whether the points have equal coordinates.

## Branches

The order of the tests is that of the source, and so is the place where a formula falls back to
doubling. Special cases for coefficients that are zero and for fields of a prime order, where the
source computes the same value in another way, are kept: whether they agree is for the laws to say.

Conversions that invert `Z` are partial in Lean and in the source alike, and answer with `none`
where the source unwraps.

## Main definitions

* `SWCurveConfig` — the coefficients of a curve
* `Sw.Affine`, `Sw.Projective` — points in affine and in Jacobian coordinates
* `Sw.Projective.doubleInPlace`, `addAssign`, `addAssignAffine` — the formulas
* `Sw.swDoubleAndAddAffine`, `Sw.swDoubleAndAddProjective` — scalar multiplication
-/

namespace ContractsStylus

/-- The coefficients of a curve over `F`. -/
structure SWCurveConfig (F : Type) where
  COEFF_A : F
  COEFF_B : F
  /-- `BaseField::extension_degree()`. -/
  extensionDegree : ℕ

namespace SWCurveConfig

variable {F : Type} [Field F] [DecidableEq F] (P : SWCurveConfig F)

def mulByA (elem : F) : F := if P.COEFF_A = 0 then 0 else elem * P.COEFF_A

def addB (elem : F) : F := if P.COEFF_B = 0 then elem else elem + P.COEFF_B

end SWCurveConfig

namespace Sw

/-- Affine coordinates for a point. -/
structure Affine (F : Type) where
  x : F
  y : F
  infinity : Bool

/-- Jacobian coordinates for a point. -/
structure Projective (F : Type) where
  /-- `X / Z ^ 2` is the affine `X`. -/
  x : F
  /-- `Y / Z ^ 3` is the affine `Y`. -/
  y : F
  /-- `0` only at infinity. -/
  z : F

variable {F : Type} [Field F] [DecidableEq F] (P : SWCurveConfig F)

namespace Affine

/-- Additive identity element of the curve group. -/
def identity : Affine F := ⟨0, 0, true⟩

def newUnchecked (x y : F) : Affine F := ⟨x, y, false⟩

/-- Checks if the point is a valid point on the curve. -/
def isOnCurve (self : Affine F) : Bool :=
  if self.infinity then true
  else
    let x3b := P.addB (square self.x * self.x)
    let x3b := if P.COEFF_A ≠ 0 then x3b + P.mulByA self.x else x3b
    square self.y = x3b

def xy (self : Affine F) : Option (F × F) := if !self.infinity then some (self.x, self.y) else none

def neg (self : Affine F) : Affine F := { self with y := -self.y }

end Affine

namespace Projective

/-- The point at infinity, which always has `Z = 0`. -/
def zero : Projective F := ⟨1, 1, 0⟩

def isZero (self : Projective F) : Bool := self.z = 0

/-- `PartialEq`. -/
def eq (self other : Projective F) : Bool :=
  if self.isZero then other.isZero
  else if other.isZero then false
  else
    -- (X, Y, Z) and (X', Y', Z') are equal when X * Z'^2 = X' * Z^2 and Y * Z'^3 = Y' * Z^3
    let z1z1 := square self.z
    let z2z2 := square other.z
    if self.x * z2z2 = other.x * z1z1 then
      self.y * (z2z2 * other.z) = other.y * (z1z1 * self.z)
    else false

/-- Sets `self = 2 * self`. -/
def doubleInPlace (self : Projective F) : Projective F :=
  if self.isZero then self
  else if P.COEFF_A = 0 then
    let a := square self.x
    let b := square self.y
    let c := square b
    let d := if P.extensionDegree ∈ [1, 2] then double (double (self.x * b))
      else double (square (self.x + b) - a - c)
    let e := a + double a
    let z := double (self.z * self.y)
    let x := square e - double d
    let y := (d - x) * e - double (double (double c))
    ⟨x, y, z⟩
  else
    let xx := square self.x
    let yy := square self.y
    let yyyy := square yy
    let zz := square self.z
    let s := double (square (self.x + yy) - xx - yyyy)
    let m := double xx + xx + P.mulByA (square zz)
    let x := square m - double s
    let z := double (self.z * self.y)
    let y := (s - x) * m - double (double (double yyyy))
    ⟨x, y, z⟩

def neg (self : Projective F) : Projective F := { self with y := -self.y }

/-- `AddAssign<Affine>`. -/
def addAssignAffine (self : Projective F) (other : Affine F) : Projective F :=
  match other.xy with
  | none => self
  | some (otherX, otherY) =>
    if self.isZero then ⟨otherX, otherY, 1⟩
    else
      let z1z1 := square self.z
      let u2 := otherX * z1z1
      let s2 := self.z * otherY * z1z1
      if self.x = u2 then
        if self.y = s2 then
          -- the two points are equal, so we double
          self.doubleInPlace P
        else
          -- a + (-a) = 0
          zero
      else
        let h := u2 - self.x
        let hh := square h
        let i := double (double hh)
        let j := -h * i
        let r := double (s2 - self.y)
        let v := self.x * i
        let x := square r + j - double v
        let y := sumOfProducts [r, double self.y] [v - x, j]
        let z := double (self.z * h)
        ⟨x, y, z⟩

/-- `AddAssign`. -/
def addAssign (self other : Projective F) : Projective F :=
  if self.isZero then other
  else if other.isZero then self
  else
    let z1z1 := square self.z
    let z2z2 := square other.z
    let u1 := self.x * z2z2
    let u2 := other.x * z1z1
    let s1 := self.y * other.z * z2z2
    let s2 := other.y * self.z * z1z1
    if u1 = u2 then
      if s1 = s2 then
        -- the two points are equal, so we double
        self.doubleInPlace P
      else
        -- a + (-a) = 0
        zero
    else
      let h := u2 - u1
      let i := square (double h)
      let j := -h * i
      let r := double (s2 - s1)
      let v := u1 * i
      let x := square r + j - double v
      let y := sumOfProducts [r, double s1] [v - x, j]
      let z := double (self.z * other.z) * h
      ⟨x, y, z⟩

/-- `SubAssign<Affine>`. -/
def subAssignAffine (self : Projective F) (other : Affine F) : Projective F :=
  self.addAssignAffine P other.neg

/-- `SubAssign`. -/
def subAssign (self other : Projective F) : Projective F := self.addAssign P other.neg

/-- `From<Affine>`. -/
def ofAffine (p : Affine F) : Projective F :=
  match p.xy with
  | none => zero
  | some (x, y) => ⟨x, y, 1⟩

end Projective

/-- `From<Projective>`. -/
def Affine.ofProjective (p : Projective F) : Affine F :=
  if p.isZero then identity
  -- if Z is one, the point is already normalized
  else if p.z = 1 then newUnchecked p.x p.y
  else
    -- Z is nonzero, so it must have an inverse in a field
    let zinv := p.z⁻¹
    let zinvSquared := square zinv
    newUnchecked (p.x * zinvSquared) (p.y * zinvSquared * zinv)

/-! ### Scalar multiplication -/

/-- Standard double-and-add method for multiplication by the number of the bits `scalar`. -/
def swDoubleAndAddAffine (base : Affine F) (scalar : List Bool) : Projective F :=
  (bitBeTrimmedIter scalar).foldl (fun res b =>
    let res := res.doubleInPlace P
    if b then res.addAssignAffine P base else res) Projective.zero

def swDoubleAndAddProjective (base : Projective F) (scalar : List Bool) : Projective F :=
  (bitBeTrimmedIter scalar).foldl (fun res b =>
    let res := res.doubleInPlace P
    if b then res.addAssign P base else res) Projective.zero

end Sw

namespace SWCurveConfig

variable {F : Type} [Field F] [DecidableEq F] (P : SWCurveConfig F)

/-- Group multiplication for projective coordinates. -/
def mulProjective (base : Sw.Projective F) (scalar : List Bool) : Sw.Projective F :=
  Sw.swDoubleAndAddProjective P base scalar

/-- Group multiplication for affine coordinates. -/
def mulAffine (base : Sw.Affine F) (scalar : List Bool) : Sw.Projective F :=
  Sw.swDoubleAndAddAffine P base scalar

end SWCurveConfig

end ContractsStylus
