import ContractsStylus.Crypto.Limb
import ContractsStylus.Library.Positional

/-!
# Big unsigned integers

Integers of a fixed number of limbs, the lowest limb first. A loop over the limbs is a fold over
their indices, and an access carries the proof that it is within bounds.

## Loops

The loops of the source run over indices and not over limbs, and some of them over the indices of
two integers. `Nat.fold` hands each index to the body of the loop with a proof that it is one, so no
access can fail and none has to be shown to succeed. Results and carries that the source assigns in
place are pairs here.

## Main definitions

* `Uint`, `Uint.toNat` — a big integer and the number it stands for
* `Uint.ge`, `Uint.cmp` — comparisons
* `Uint.checkedAddAssign`, `Uint.checkedSub`, `Uint.checkedMul2` — arithmetic with a carry
* `Uint.wideningMul` — the product, of twice the size
* `WideUint.rem` — the remainder of a number of twice the size
-/

namespace ContractsStylus

/-- The limbs of a big integer, the lowest first. -/
abbrev Limbs (N : ℕ) := Vector Limb N

/-- The `i`-th digit that limbs stand for, which is zero past their end. -/
def Limbs.digit {N : ℕ} (limbs : Limbs N) (i : ℕ) : ℕ := if h : i < N then limbs[i].toNat else 0

/-- Big unsigned integer of `N` limbs. -/
structure Uint (N : ℕ) where
  limbs : Limbs N
  deriving DecidableEq

namespace Uint

variable {N : ℕ}

/-- The number that limbs stand for. -/
def toNat (self : Uint N) : ℕ := positional (2 ^ 64) (Limbs.digit self.limbs) N

def BITS (N : ℕ) : ℕ := 64 * N

def ZERO : Uint N := ⟨.replicate N 0⟩

def MAX : Uint N := ⟨.replicate N (BitVec.allOnes 64)⟩

def ONE (hN : 0 < N) : Uint N := ⟨(ZERO : Uint N).limbs.set 0 1⟩

def isOdd (hN : 0 < N) (self : Uint N) : Bool := self.limbs[0] &&& 1 = 1

def isEven (hN : 0 < N) (self : Uint N) : Bool := self.limbs[0] &&& 1 = 0

/-- Checks `self` is greater or equal then `rhs`. -/
def ge (self rhs : Uint N) : Bool :=
  N.fold (fun i _ result =>
    let a := self.limbs[i]
    let b := rhs.limbs[i]
    if a > b then true else if a < b then false else result) true

/-- `Ord::cmp`. -/
def cmp (self rhs : Uint N) : Ordering :=
  N.fold (fun i _ result =>
    let a := self.limbs[i]
    let b := rhs.limbs[i]
    match compare a.toNat b.toNat with
    | .eq => result
    | order => order) .eq

/-- Checks if `self` is equal to `rhs`. -/
def eq (self rhs : Uint N) : Bool := N.all fun i _ => self.limbs[i] = rhs.limbs[i]

def isZero (self : Uint N) : Bool := self.eq ZERO

/-- `leading_zeros`. -/
def leadingZeros (limb : Limb) : ℕ := limb.clz.toNat

/-- The number of bits left when the leading zeroes of the lowest `index` limbs are subtracted
from the total, down to the highest limb that is not empty. -/
def numBitsFrom (self : Uint N) : (index : ℕ) → index ≤ N → ℕ → ℕ
  | 0, _, numBits => numBits
  | index + 1, h, numBits =>
    let leading := leadingZeros self.limbs[index]
    let numBits := numBits - leading
    if leading ≠ 64 then numBits else numBitsFrom self index (Nat.le_of_succ_le h) numBits

/-- The minimum number of bits needed to encode this number. -/
def numBits (self : Uint N) : ℕ :=
  -- one bit is necessary to encode zero
  if self.isZero then 1 else self.numBitsFrom N le_rfl (BITS N)

/-- Find the `i`-th bit of `self`. -/
def getBit (self : Uint N) (i : ℕ) : Bool :=
  if h : i ≥ BITS N then false
  else
    let limb := i / 64
    let bit := i - 64 * limb
    let mask : Limb := 1#64 <<< bit
    have : limb < N := Nat.div_lt_of_lt_mul (not_le.mp h)
    self.limbs[limb] &&& mask ≠ 0

/-! ### Arithmetic with a carry -/

/-- Replaces each limb by what `f` makes of it and of the carry. -/
def carryLoop {γ : Type} (f : (i : ℕ) → i < N → Limb → γ → Limb × γ) (self : Uint N) (carry : γ) :
    Uint N × γ :=
  N.fold (fun i hi s =>
    let (limb, carry) := f i hi s.1.limbs[i] s.2
    (⟨s.1.limbs.set i limb⟩, carry)) (self, carry)

/-- Multiplies `self` by `2`, returning the result and whether overflow occurred. -/
def checkedMul2 (self : Uint N) : Uint N × Bool :=
  let (self, last) := self.carryLoop (fun _ _ a last => (a <<< 1 ||| last, a >>> 63)) (0 : Limb)
  (self, last ≠ 0)

/-- Multiplies `self` by `2` in-place. -/
def checkedMul2Assign (self : Uint N) : Uint N × Bool := self.checkedMul2

/-- Divide `self` by `2` in-place. -/
def div2Assign (self : Uint N) : Uint N :=
  (N.foldRev (fun i hi (s : Uint N × Limb) =>
    let t2 := s.1.limbs[i] <<< 63
    (⟨s.1.limbs.set i (s.1.limbs[i] >>> 1 ||| s.2)⟩, t2)) (self, 0)).1

/-- Subtract `rhs` from `self`, returning the result and whether overflow occurred. -/
def checkedSub (self rhs : Uint N) : Uint N × Bool :=
  self.carryLoop (fun i _ a borrow => Limb.sbb a rhs.limbs[i] borrow) false

def wrappingSub (self rhs : Uint N) : Uint N := (self.checkedSub rhs).1

/-- Add `rhs` to `self` in-place, returning whether overflow occurred. -/
def checkedAddAssign (self rhs : Uint N) : Uint N × Bool :=
  self.carryLoop (fun i _ a carry => Limb.adcAssign a rhs.limbs[i] carry) false

/-- Subtract `rhs` from `self` in-place, returning whether overflow occurred. -/
def checkedSubAssign (self rhs : Uint N) : Uint N × Bool :=
  self.carryLoop (fun i _ a borrow => Limb.sbbAssign a rhs.limbs[i] borrow) false

/-- Computes `a + b + carry`, returning the result along with the new carry. -/
def adc (self rhs : Uint N) (carry : Bool) : Uint N × Bool :=
  (ZERO : Uint N).carryLoop (fun i _ _ carry => Limb.adc self.limbs[i] rhs.limbs[i] carry) carry

def wrappingAdd (self rhs : Uint N) : Uint N := (self.adc rhs false).1

/-! ### Products -/

/-- Multiplies and adds to the `k`-th limb of a number of twice the size, with `k ≥ N` going to
the high part. -/
def carryingMacAt (lo hi : Limbs N) (k : ℕ) (hk : k < N + N) (b c carry : Limb) :
    (Limbs N × Limbs N) × Limb :=
  if h : k ≥ N then
    have : k - N < N := by omega
    let (limb, carry) := Limb.carryingMac hi[k - N] b c carry
    ((lo, hi.set (k - N) limb), carry)
  else
    have : k < N := by omega
    let (limb, carry) := Limb.carryingMac lo[k] b c carry
    ((lo.set k limb, hi), carry)

/-- Compute "wide" multiplication, with a product twice the size of the input. -/
def wideningMul (self rhs : Uint N) : Uint N × Uint N :=
  let (lo, hi) := N.fold (fun i _ s =>
    let ((lo, hi), carry) := N.fold (fun j _ t =>
      carryingMacAt t.1.1 t.1.2 (i + j) (by omega) self.limbs[i] rhs.limbs[j] t.2) (s, 0)
    -- set the last carry to the next limb
    (lo, hi.set i carry)) ((ZERO : Uint N).limbs, (ZERO : Uint N).limbs)
  (⟨lo⟩, ⟨hi⟩)

end Uint

/-- Integer that uses twice more limbs. -/
structure WideUint (N : ℕ) where
  low : Uint N
  high : Uint N

namespace WideUint

variable {N : ℕ}

/-- The number of bits in the binary decomposition of `self`. -/
def numBits (self : WideUint N) : ℕ :=
  if self.high.isZero then self.low.numBits else self.high.numBits + Uint.BITS N

/-- The `i`-th bit of `self`. -/
def getBit (self : WideUint N) (i : ℕ) : Bool :=
  if i ≥ Uint.BITS N then self.high.getBit (i - Uint.BITS N) else self.low.getBit i

/-- One bit of the dividend: the remainder is shifted, and reduced when it overflows. -/
def remStep (hN : 0 < N) (self : WideUint N) (rhs : Uint N) (index : ℕ) (remainder : Uint N) :
    Uint N :=
  let (remainder, carry) := remainder.checkedMul2
  let remainder := ⟨remainder.limbs.set 0
    (remainder.limbs[0] ||| (BitVec.ofBool (self.getBit index)).setWidth 64)⟩
  if remainder.ge rhs || carry then (remainder.checkedSub rhs).1 else remainder

/-- The remainder of division `self` by `rhs`, which panics when `rhs` is zero. -/
def rem (hN : 0 < N) (self : WideUint N) (rhs : Uint N) : Option (Uint N) :=
  if rhs.isZero then none
  else some (self.numBits.foldRev (fun index _ => self.remStep hN rhs index) Uint.ZERO)

end WideUint

end ContractsStylus
