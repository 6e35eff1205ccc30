import ContractsStylus.Crypto.UintLaws

/-!
# Prime field elements

Elements of a prime field, kept in Montgomery form: an element stands for its limbs divided by
`2 ^ (64 * N)`. What the code asserts of a modulus at compile time is a field of `FpParams`; that
it is prime is used for inverses only and not assumed here.

## Moduli with and without a spare bit

Sums, doubles and products may need one bit more than the limbs have, unless the highest bit of the
modulus is free. The source looks at the modulus and drops the carry or keeps it, and so do the
definitions: both branches are in every one of them.

There are two reductions, of a number of twice the limbs and of a single one, where the limbs rotate
in place. The definitions follow the loops of the source limb by limb. Nothing here is a law; the
modules after this one say what they compute.

## Main definitions

* `FpParams` — a modulus, and the constants computed from it
* `Fp` — a field element
* `Fp.wideningMontgomeryReduction`, `Fp.mul` — Montgomery multiplication
* `Fp.fromBigint`, `Fp.intoBigint` — conversion from and to integers
-/

namespace ContractsStylus

/-- The configuration of a prime field: an odd modulus that fits `N` limbs. -/
structure FpParams (N : ℕ) where
  MODULUS : Uint N
  odd : MODULUS.toNat % 2 = 1
  one_lt : 1 < MODULUS.toNat

namespace FpParams

variable {N : ℕ}

/-- A modulus has limbs. -/
theorem pos (P : FpParams N) : 0 < N := by
  cases N with
  | zero => exact absurd (P.one_lt.trans P.MODULUS.toNat_lt) (lt_irrefl 1)
  | succ N => exact N.succ_pos

variable (P : FpParams N)

/-- `MODULUS` has a spare bit in the most significant limb. -/
def HAS_MODULUS_SPARE_BIT : Bool :=
  have := P.pos
  P.MODULUS.limbs[N - 1] >>> 63 = 0

/-- Compute `-M^{-1} mod 2^64`. -/
def inv : Limb :=
  have := P.pos
  let inv := Nat.fold 63 (fun _ _ inv =>
    -- square
    let inv := inv * inv
    -- multiply
    inv * P.MODULUS.limbs[0]) (1 : Limb)
  (-inv)

def INV : Limb := P.inv

/-- No division by zero in the constants. -/
theorem rem_isSome (x : WideUint N) : (x.rem P.pos P.MODULUS).isSome = true := by
  obtain ⟨r, hr, -⟩ := x.rem_eq P.pos P.MODULUS (Nat.ne_of_gt (Nat.zero_lt_of_lt P.one_lt))
  rw [hr, Option.isSome_some]

/-- `R = (M - 1) % MODULUS + 1`, for `M` the power of `2^64` nearest to the modulus size. -/
def R : Uint N :=
  (((WideUint.mk Uint.MAX Uint.ZERO).rem P.pos P.MODULUS).get (P.rem_isSome _)).wrappingAdd
    (Uint.ONE P.pos)

/-- `R2 = (R^2 - 1) % MODULUS + 1`. -/
def R2 : Uint N :=
  (((WideUint.mk Uint.MAX Uint.MAX).rem P.pos P.MODULUS).get (P.rem_isSome _)).wrappingAdd
    (Uint.ONE P.pos)

end FpParams

/-- An element of the field of integers modulo `P.MODULUS`. -/
structure Fp {N : ℕ} (P : FpParams N) where
  /-- The element in Montgomery form. -/
  montgomeryForm : Uint N
  deriving DecidableEq

namespace Fp

variable {N : ℕ} {P : FpParams N}

def newUnchecked (element : Uint N) : Fp P := ⟨element⟩

def ZERO : Fp P := newUnchecked Uint.ZERO

def ONE : Fp P := newUnchecked P.R

def isZero (self : Fp P) : Bool := self.montgomeryForm.isZero

def isGeModulus (self : Fp P) : Bool := self.montgomeryForm.ge P.MODULUS

def subtractModulus (self : Fp P) : Fp P :=
  if self.isGeModulus then ⟨self.montgomeryForm.wrappingSub P.MODULUS⟩ else self

/-- Subtract the modulus from `self` with carry. -/
def carryingSubModulus (self : Fp P) (carry : Bool) : Fp P :=
  if carry || self.isGeModulus then ⟨self.montgomeryForm.wrappingSub P.MODULUS⟩ else self

/-! ### Montgomery multiplication

A product is formed in twice as many limbs and reduced. The reduction of a single number is a loop
of its own in the source. -/

/-- The row of a round stays within the two parts. -/
theorem round_lt {i j : ℕ} (hi : i < N) (hj : j < N - 1) : i + 1 + j < N + N := by omega

variable (P) in
/-- One limb of the reduction: a multiple of the modulus is added that clears the `i`-th limb. -/
def wideningMontgomeryRound (i : ℕ) (h : i < N) (s : (Limbs N × Limbs N) × Bool) :
    (Limbs N × Limbs N) × Bool :=
  let ((lo, hi), carry2) := s
  let tmp := lo[i] * P.INV
  let (_, carry) := Limb.mac lo[i] tmp P.MODULUS.limbs[0]
  -- the loop over `1..N`, at the limbs `i + j`
  let ((lo, hi), carry) := (N - 1).fold (fun j hj t =>
    Uint.carryingMacAt t.1.1 t.1.2 (i + 1 + j) (round_lt h hj) tmp P.MODULUS.limbs[j + 1] t.2)
    ((lo, hi), carry)
  let (limb, carry2) := Limb.adc hi[i] carry carry2
  ((lo, hi.set i limb), carry2)

variable (P) in
/-- Apply the Montgomery reduction to the number of the parts `lo` and `hi`. -/
def wideningMontgomeryReduction (lo hi : Uint N) : Bool × Uint N :=
  let ((_, hi), carry2) := N.fold (wideningMontgomeryRound P) ((lo.limbs, hi.limbs), false)
  (carry2, ⟨hi⟩)

def mulWithoutCondSubtract (self other : Fp P) : Bool × Fp P :=
  let (lo, hi) := self.montgomeryForm.wideningMul other.montgomeryForm
  let (carry, res) := wideningMontgomeryReduction P lo hi
  (carry, newUnchecked res)

/-- Multiply `self` to `rhs`. -/
def mul (self rhs : Fp P) : Fp P :=
  let (carry, result) := self.mulWithoutCondSubtract rhs
  if P.HAS_MODULUS_SPARE_BIT then result.subtractModulus else result.carryingSubModulus carry

variable (P) in
/-- One limb of the reduction in place, where the limbs rotate. -/
def montgomeryRound (i : ℕ) (h : i < N) (limbs : Limbs N) : Limbs N :=
  have hN : 0 < N := P.pos
  let k := limbs[i] * P.INV
  let (_, carry) := Limb.mac limbs[i] k P.MODULUS.limbs[0]
  -- the loop over `1..N`
  let (limbs, carry) := (N - 1).fold (fun j _ (t : Limbs N × Limb) =>
    have : (j + 1 + i) % N < N := Nat.mod_lt _ hN
    let (limb, carry) := Limb.carryingMac t.1[(j + 1 + i) % N] k P.MODULUS.limbs[j + 1] t.2
    (t.1.set ((j + 1 + i) % N) limb, carry)) (limbs, carry)
  limbs.set (i % N) carry (Nat.mod_lt _ hN)

/-- Apply the Montgomery reduction to `self`. -/
def montgomeryReduction (self : Fp P) : Uint N :=
  ⟨N.fold (montgomeryRound P) self.montgomeryForm.limbs⟩

/-! ### Conversions

An integer is multiplied with `R2`, and an element is reduced. -/

/-- Construct a field element from an integer, which need not be reduced. -/
def fromBigint (num : Uint N) : Fp P :=
  let elem : Fp P := newUnchecked num
  if elem.isZero then elem else mul elem (newUnchecked P.R2)

/-- Convert a field element to an integer less than the modulus. -/
def intoBigint (self : Fp P) : Uint N := self.montgomeryReduction

/-! ### Arithmetic

With a spare bit the carry of a sum is dropped, and without one it is a part of the comparison with
the modulus. -/

/-- Set `a += b`. -/
def addAssign (a b : Fp P) : Fp P :=
  -- this cannot exceed the backing capacity
  let (sum, c) := a.montgomeryForm.checkedAddAssign b.montgomeryForm
  -- however, it may need to be reduced
  if P.HAS_MODULUS_SPARE_BIT then subtractModulus ⟨sum⟩ else carryingSubModulus ⟨sum⟩ c

/-- Set `a -= b`. -/
def subAssign (a b : Fp P) : Fp P :=
  let a :=
    -- if `other` is larger than `self`, add the modulus to `self` first
    if b.montgomeryForm.cmp a.montgomeryForm = .gt then
      (a.montgomeryForm.checkedAddAssign P.MODULUS).1
    else a.montgomeryForm
  ⟨(a.checkedSubAssign b.montgomeryForm).1⟩

/-- Set `a = a + a`. -/
def doubleInPlace (a : Fp P) : Fp P :=
  let (twice, c) := a.montgomeryForm.checkedMul2Assign
  if P.HAS_MODULUS_SPARE_BIT then subtractModulus ⟨twice⟩ else carryingSubModulus ⟨twice⟩ c

/-- Set `a = -a`. -/
def negInPlace (a : Fp P) : Fp P :=
  if a.isZero then a else ⟨(P.MODULUS.checkedSubAssign a.montgomeryForm).1⟩

/-- Negate `self` and return the result, in constants. -/
def neg (self : Fp P) : Fp P :=
  if self.isZero then self else newUnchecked (P.MODULUS.checkedSub self.montgomeryForm).1

/-- Set `a *= b`. -/
def mulAssign (a b : Fp P) : Fp P := mul a b

/-- Set `a *= a`. -/
def squareInPlace (a : Fp P) : Fp P := mul a a

end Fp

end ContractsStylus
