import ContractsStylus.Library.Ladder
import Mathlib.Algebra.BigOperators.Group.List.Basic
import Mathlib.Algebra.Field.Defs
import Mathlib.Tactic.Ring

/-!
# Operations on field elements

The methods of the trait `Field` that code over an arbitrary field uses, besides those that are
written as operators, and the bits of a scalar or an exponent without their leading zeros.

`pow` goes over the bits of its exponent as the source does, and is the power of the monoid by the
number of the bits; the squares and doubles of the trait are methods of their own in the source, and
definitions here.
-/

namespace ContractsStylus

variable {F : Type} [Field F]

/-- `double`, `double_in_place`. -/
def double (a : F) : F := a + a

/-- `square`, `square_in_place`. -/
def square (a : F) : F := a * a

/-- `sum_of_products`. -/
def sumOfProducts (a b : List F) : F := (a.zip b).foldl (fun sum p => sum + p.1 * p.2) 0

/-- `bit_be_trimmed_iter`, of the bits that `bit_be_iter` gives. -/
def bitBeTrimmedIter (bits : List Bool) : List Bool := bits.dropWhile fun b => !b

section Pow

variable {M : Type} [Monoid M]

/-- One bit of the exponent. -/
def powStep (self : M) (res : Option M) (hasBit : Bool) : Option M :=
  -- if the result is not empty, square it
  let res := res.map fun res => res * res
  if hasBit then
    match res with
    | none => some self
    | some res => some (res * self)
  else res

/-- `pow`, by the bits of the exponent. `None` corresponds to one. -/
def pow (self : M) (exp : List Bool) : M :=
  ((bitBeTrimmedIter exp).foldl (powStep self) none).getD 1

/-- **Powers**, of any bits with any leading zeros. -/
theorem pow_eq (self : M) (exp : List Bool) : pow self exp = self ^ ofBitsBe exp :=
  ladder_pow rfl rfl (fun _ => rfl) (fun _ => rfl) exp

end Pow

theorem double_eq (a : F) : double a = 2 * a := (two_mul a).symm

theorem square_eq (a : F) : square a = a ^ 2 := (pow_two a).symm

theorem sumOfProducts_two (a b c d : F) : sumOfProducts [a, b] [c, d] = a * c + b * d := by
  simp [sumOfProducts]

end ContractsStylus
