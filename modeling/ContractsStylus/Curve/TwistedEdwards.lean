import ContractsStylus.Crypto.FieldOps

/-!
# Twisted Edwards curves

Points of a curve `a x² + y² = 1 + d x² y²` in affine and in extended coordinates. The formulas
have no branches: the same one adds, doubles and handles the identity.

## Extended coordinates

The fourth coordinate is the product of the first two, up to `Z`, and saves multiplications. It is
redundant and nothing checks it, so that it is right is a part of what has to be kept. Coordinates
whose `Z` is zero stand for no point.

Conversions between the two kinds of coordinates are partial where the source unwraps an inverse.

## Main definitions

* `TECurveConfig` — the coefficients of a curve and its generator
* `Te.Affine`, `Te.Projective` — points in affine and in extended coordinates
* `Te.Projective.doubleInPlace`, `addAssign`, `addAssignAffine` — the formulas
* `TECurveConfig.mulProjective`, `mulAffine` — scalar multiplication
-/

namespace ContractsStylus

namespace Te

/-- Affine coordinates for a point. -/
@[ext] structure Affine (F : Type) where
  x : F
  y : F

/-- Extended coordinates for a point. -/
structure Projective (F : Type) where
  /-- `X / Z` is the affine `X`. -/
  x : F
  /-- `Y / Z` is the affine `Y`. -/
  y : F
  /-- `T / Z` is the product of the affine coordinates. -/
  t : F
  z : F

end Te

/-- The coefficients of a curve over `F`, and the generator of its prime-order subgroup. -/
structure TECurveConfig (F : Type) where
  COEFF_A : F
  COEFF_D : F
  GENERATOR : Te.Affine F

variable {F : Type} [Field F] (P : TECurveConfig F)

def TECurveConfig.mulByA (elem : F) : F := elem * P.COEFF_A

namespace Te

namespace Affine

/-- The identity of the group. -/
def zero : Affine F := ⟨0, 1⟩

def newUnchecked (x y : F) : Affine F := ⟨x, y⟩

def neg (self : Affine F) : Affine F := newUnchecked (-self.x) self.y

end Affine

namespace Projective

def newUnchecked (x y t z : F) : Projective F := ⟨x, y, t, z⟩

def zero : Projective F := newUnchecked 0 1 0 1

/-- Sets `self = 2 * self`. -/
def doubleInPlace (self : Projective F) : Projective F :=
  let a := square self.x
  let b := square self.y
  let c := double (square self.z)
  let d := P.mulByA a
  let e := square (self.x + self.y) - a - b
  let g := d + b
  let f := g - c
  let h := d - b
  ⟨e * f, g * h, e * h, f * g⟩

def neg (self : Projective F) : Projective F := { self with x := -self.x, t := -self.t }

/-- `AddAssign<Affine>`. -/
def addAssignAffine (self : Projective F) (other : Affine F) : Projective F :=
  let a := self.x * other.x
  let b := self.y * other.y
  let c := P.COEFF_D * self.t * other.x * other.y
  let d := self.z
  let e := (self.x + self.y) * (other.x + other.y) - a - b
  let f := d - c
  let g := d + c
  let h := b - P.mulByA a
  ⟨e * f, g * h, e * h, f * g⟩

/-- `AddAssign`. -/
def addAssign (self other : Projective F) : Projective F :=
  let a := self.x * other.x
  let b := self.y * other.y
  let c := P.COEFF_D * self.t * other.t
  let d := self.z * other.z
  let h := b - P.mulByA a
  let e := (self.x + self.y) * (other.x + other.y) - a - b
  let f := d - c
  let g := d + c
  ⟨e * f, g * h, e * h, f * g⟩

/-- `SubAssign<Affine>`. -/
def subAssignAffine (self : Projective F) (other : Affine F) : Projective F :=
  self.addAssignAffine P other.neg

/-- `SubAssign`. -/
def subAssign (self other : Projective F) : Projective F := self.addAssign P other.neg

/-- `From<Affine>`: the point itself, with `Z = 1`. -/
def ofAffine (p : Affine F) : Projective F := newUnchecked p.x p.y (p.x * p.y) 1

end Projective

end Te

/-! ### Scalar multiplication -/

namespace TECurveConfig

open Te

/-- Group multiplication for projective coordinates, by the number of the bits `scalar`. -/
def mulProjective (base : Projective F) (scalar : List Bool) : Projective F :=
  (bitBeTrimmedIter scalar).foldl (fun res b =>
    let res := res.doubleInPlace P
    if b then res.addAssign P base else res) Projective.zero

/-- Group multiplication for affine coordinates. -/
def mulAffine (base : Affine F) (scalar : List Bool) : Projective F :=
  (bitBeTrimmedIter scalar).foldl (fun res b =>
    let res := res.doubleInPlace P
    if b then res.addAssignAffine P base else res) Projective.zero

end TECurveConfig

namespace Te

/-- `PrimeGroup::generator`. -/
def Projective.generator : Projective F := ofAffine P.GENERATOR

/-- `PrimeGroup::mul_bigint`. -/
def Projective.mulBigint (self : Projective F) (other : List Bool) : Projective F :=
  P.mulProjective self other

/-! ### Checks and conversions -/

variable [DecidableEq F]

/-- Is this point the identity? -/
def Affine.isZero (self : Affine F) : Bool := self.x = 0 && self.y = 1

/-- Checks that the point is on the curve. -/
def Affine.isOnCurve (self : Affine F) : Bool :=
  let x2 := square self.x
  let y2 := square self.y
  let lhs := y2 + P.mulByA x2
  let rhs := 1 + P.COEFF_D * (x2 * y2)
  lhs = rhs

def Projective.isZero (self : Projective F) : Bool :=
  self.x = 0 && self.y = self.z && !(self.y = 0 : Bool) && self.t = 0

/-- `PartialEq`. -/
def Projective.eq (self other : Projective F) : Bool :=
  if self.isZero then other.isZero
  else if other.isZero then false
  else
    -- x1/z1 == x2/z2 <==> x1 * z2 == x2 * z1
    self.x * other.z = other.x * self.z && self.y * other.z = other.y * self.z

/-- `From<Projective>`. Without an inverse of `Z` the conversion panics. -/
def Affine.ofProjective (p : Projective F) : Option (Affine F) :=
  if p.isZero then some zero
  -- if Z is one, the point is already normalized
  else if p.z = 1 then some (newUnchecked p.x p.y)
  -- the inverse is `None` only of zero
  else if p.z = 0 then none
  else
    let zInv := p.z⁻¹
    some (newUnchecked (p.x * zInv) (p.y * zInv))

end Te

end ContractsStylus
