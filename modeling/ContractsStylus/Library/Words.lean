import Mathlib.Algebra.BigOperators.Group.List.Basic
import Mathlib.Data.BitVec
import Mathlib.Data.Fintype.EquivFin
import Mathlib.Order.Defs.LinearOrder

/-!
# Words as numbers

Fixed-width words with the arithmetic of a machine: sums and differences wrap. The lemmas here
say what the wrapping operations do to the numbers the words stand for when nothing wraps, and
how a sum splits into the bits two words share and the bits in which they differ. The split is
what lets an average be taken without an intermediate overflow.

## Words are numbers and not residues

The words are those of `BitVec`, whose arithmetic is that of machines. What a program means by them
is nearly always a number, and a sum that wraps is an error. So each lemma has the inequality under
which nothing wraps as a hypothesis, or describes what is left of a number that does wrap.

The order of words is that of the numbers, as a linear order, so that `min` and `max` and the lemmas
about them are those of any other type. Words of one width are finitely many; sums over all words
are sums over a finite type, and no computation ever lists it.
-/

namespace BitVec

variable {w : ℕ}

instance instFinite : Finite (BitVec w) := Finite.of_equiv (Fin (2 ^ w)) equivFin.symm.toEquiv

/-- There are finitely many words of one width, so totals over all of them make sense. There is no
point in listing them, and the instance does not. -/
noncomputable instance instFintype : Fintype (BitVec w) := Fintype.ofFinite _

/-- Words are ordered as the numbers they stand for. -/
instance instLinearOrder : LinearOrder (BitVec w) where
  le_refl x := BitVec.le_refl x
  le_trans _ _ _ := BitVec.le_trans
  lt_iff_le_not_ge x y := by simp only [lt_def, le_def]; omega
  le_antisymm _ _ := BitVec.le_antisymm
  le_total x y := BitVec.le_total x y
  toDecidableLE := inferInstance
  toDecidableEq := inferInstance
  toDecidableLT := inferInstance

theorem toNat_sub_add_cancel {x y : BitVec w} (h : y.toNat ≤ x.toNat) :
    (x - y).toNat + y.toNat = x.toNat := by
  rw [toNat_sub_of_le (le_def.mpr h)]
  omega

theorem toNat_sub_one {x : BitVec w} (h : 0 < x.toNat) : (x - 1).toNat = x.toNat - 1 := by
  have hone : (1 : BitVec w).toNat = 1 := Nat.mod_eq_of_lt (Nat.lt_of_le_of_lt h x.isLt)
  rw [toNat_sub_of_le, hone]
  rw [le_def, hone]
  exact h

/-- A sum of words wraps once, at the end. -/
theorem toNat_sum (l : List (BitVec w)) : l.sum.toNat = (l.map BitVec.toNat).sum % 2 ^ w := by
  induction l with
  | nil => simp
  | cons x l ih => rw [List.sum_cons, toNat_add, ih, List.map_cons, List.sum_cons, Nat.add_mod_mod]

/-- The sum of two numbers, as its carry-free bits and its carries. -/
theorem xor_add_two_mul_and (a b : ℕ) : (a ^^^ b) + 2 * (a &&& b) = a + b := by
  induction a using Nat.strongRecOn generalizing b with
  | ind a ih =>
    rcases Nat.eq_zero_or_pos a with rfl | ha
    · simp
    · have hhalf := ih (a / 2) (by omega) (b / 2)
      rw [← Nat.xor_div_two, ← Nat.and_div_two] at hhalf
      have hxor := Nat.xor_mod_two_eq_one (a := a) (b := b)
      have hand := Nat.and_mod_two_eq_one (a := a) (b := b)
      omega

/-- **The average of two words, rounded down**, with no intermediate result wider than a word. -/
theorem toNat_and_add_xor_shiftRight (x y : BitVec w) :
    ((x &&& y) + ((x ^^^ y) >>> 1)).toNat = (x.toNat + y.toNat) / 2 := by
  have hsplit := xor_add_two_mul_and x.toNat y.toNat
  have havg : (x.toNat + y.toNat) / 2 = (x.toNat &&& y.toNat) + (x.toNat ^^^ y.toNat) / 2 := by
    omega
  have hlt : (x.toNat &&& y.toNat) + (x.toNat ^^^ y.toNat) / 2 < 2 ^ w := by
    have hx := x.isLt
    have hy := y.isLt
    omega
  rw [toNat_add_of_lt] <;>
    rw [toNat_and, toNat_ushiftRight, toNat_xor, Nat.shiftRight_eq_div_pow, pow_one]
  · exact havg.symm
  · exact hlt

/-- The product of two words, with less than another word on top, fits into twice as many bits. -/
theorem toNat_mul_add_lt (x y d : BitVec w) :
    x.toNat * y.toNat + (d.toNat - 1) < 2 ^ (w + w) := by
  obtain ⟨k, hk⟩ := Nat.exists_eq_add_one.mpr (Nat.two_pow_pos w)
  have hx := x.isLt
  have hy := y.isLt
  have hd := d.isLt
  have hxy : x.toNat * y.toNat ≤ k * k := Nat.mul_le_mul (by omega) (by omega)
  calc x.toNat * y.toNat + (d.toNat - 1) ≤ k * k + k := by omega
    _ < (k + 1) * (k + 1) := by rw [Nat.add_mul, Nat.mul_add]; omega
    _ = 2 ^ (w + w) := by rw [← hk, ← Nat.pow_add]

end BitVec
