import Mathlib.Data.Matrix.Composition
import Mathlib.FieldTheory.Finite.Basic
import Mathlib.LinearAlgebra.Matrix.Circulant
import Mathlib.LinearAlgebra.Matrix.NonsingularInverse

/-!
# Layers of substitution networks

What the rounds of a permutation of `n` field elements are made of: matrices that are applied by
adding sums, and powers of some or all elements.

## Fast products

An implementation does not multiply matrices. It adds the elements up once and adds the sum to
multiples of each, which is the product with a matrix of ones and a diagonal; for blocks it does the
same with products of small blocks. `ones_mulVec` and `blockCirculant_mulVec` say so, and that such
a matrix is invertible can then be decided without elimination.

For ones and a diagonal this is the formula of Sherman and Morrison: the determinant is the product
of the diagonal times one plus the sum of the inverses. The proof does not need determinants. If
the matrix takes a vector to zero, each element is minus the sum divided by its entry of the
diagonal, and adding these up leaves the sum times something that is not zero.

## Bijections and not ciphers

Nothing here is about security. A permutation that is used in a hash has to be one: two states that
are taken to one would be a collision that no analysis looks for. That is all that is proved.

## Main definitions

* `blockCirculant` — the matrix with the blocks `2 * M` on the diagonal and `M` elsewhere

## Main results

* `ones_mulVec`, `blockCirculant_mulVec` — products by adding sums
* `isUnit_ones_add_diagonal`, `isUnit_blockCirculant` — when these matrices are invertible
* `mulVec_bijective` — an invertible matrix is a bijection
* `pow_bijective` — a power of a finite field that is coprime to the order of its units
* `update_bijective` — a bijection at one position
-/

namespace ContractsStylus

open Matrix

/-! ### Matrices

Products with the matrices that have a fast form, as sums. -/

section Matrices

variable {R : Type} [CommRing R] {n : ℕ} {m : Type} [Fintype m]

/-- The matrix of ones and a diagonal: each element is multiplied, and the sum is added. -/
theorem ones_mulVec (d v : Fin n → R) (i : Fin n) :
    ((of (fun _ _ => 1) + diagonal d : Matrix (Fin n) (Fin n) R) *ᵥ v) i =
      v i * d i + ∑ j, v j := by
  have hones : ((of fun _ _ => 1 : Matrix (Fin n) (Fin n) R) *ᵥ v) i = ∑ j, v j := by
    rw [mulVec, dotProduct]
    exact Finset.sum_congr rfl fun j _ => one_mul _
  rw [add_mulVec, Pi.add_apply, mulVec_diagonal, hones, add_comm, mul_comm]

/-- `circ(2 * M, M, …, M)`, with `n` blocks in each row. -/
def blockCirculant (n : ℕ) (M : Matrix m m R) : Matrix (Fin n × m) (Fin n × m) R :=
  comp _ _ _ _ R (circulant fun k : Fin n => if k.val = 0 then 2 • M else M)

theorem val_sub_eq_zero {i j : Fin n} : (i - j).val = 0 ↔ i = j := by
  cases n with
  | zero => exact i.elim0
  | succ n => rw [Fin.val_eq_zero_iff, sub_eq_zero]

/-- **The product by blocks**: the product of a block, and the sum of those of all blocks. -/
theorem blockCirculant_mulVec (M : Matrix m m R) (u : Fin n → m → R) (i : Fin n) (j : m) :
    (blockCirculant n M *ᵥ fun k => u k.1 k.2) (i, j) = (M *ᵥ u i) j + ∑ k, (M *ᵥ u k) j := by
  have hrow : ∀ k, ∑ l, (blockCirculant n M) (i, j) (k, l) * u k l =
      (if i = k then (M *ᵥ u k) j else 0) + (M *ᵥ u k) j := by
    intro k
    simp only [blockCirculant, comp_apply, circulant_apply, val_sub_eq_zero]
    split
    · rw [mulVec, dotProduct, ← two_nsmul, Finset.smul_sum]
      exact Finset.sum_congr rfl fun l _ => smul_mul_assoc 2 (M j l) _
    · rw [zero_add]
      rfl
  rw [mulVec, dotProduct, Fintype.sum_prod_type]
  simp only [hrow]
  rw [Finset.sum_add_distrib, Finset.sum_ite_eq, if_pos (Finset.mem_univ i)]

end Matrices

/-! ### Invertible matrices

Conditions that are computed from few elements, in any field in which they do not vanish. -/

section Invertible

variable {F : Type} [Field F] {n : ℕ} {m : Type} [Fintype m] [DecidableEq m]

/-- A matrix is invertible when only zero is mapped to zero. -/
theorem isUnit_of_mulVec_eq_zero {M : Matrix m m F} (h : ∀ v, M *ᵥ v = 0 → v = 0) : IsUnit M := by
  refine mulVec_injective_iff_isUnit.mp fun v w hvw => sub_eq_zero.mp (h _ ?_)
  rw [mulVec_sub, sub_eq_zero]
  exact hvw

/-- **Ones and a diagonal**, with the inverses of the diagonal: the sum of a vector in the kernel
vanishes, and with it all of the vector. -/
theorem isUnit_ones_add_diagonal {d e : Fin n → F} (hinv : ∀ i, d i * e i = 1)
    (hsum : 1 + ∑ i, e i ≠ 0) :
    IsUnit (of (fun _ _ => 1) + diagonal d : Matrix (Fin n) (Fin n) F) := by
  refine isUnit_of_mulVec_eq_zero fun v hv => ?_
  have hrow : ∀ i, v i = -(∑ j, v j) * e i := by
    intro i
    have hzero : v i * d i + ∑ j, v j = 0 := (ones_mulVec d v i).symm.trans (congrFun hv i)
    calc v i = v i * d i * e i := by rw [mul_assoc, hinv, mul_one]
      _ = -(∑ j, v j) * e i := by rw [eq_neg_of_add_eq_zero_left hzero]
  have htotal : (∑ j, v j) * (1 + ∑ i, e i) = 0 := by
    have hself : ∑ j, v j = -(∑ j, v j) * ∑ i, e i := by
      rw [Finset.mul_sum]
      exact Finset.sum_congr rfl fun i _ => hrow i
    rw [mul_add, mul_one, ← sub_neg_eq_add, ← neg_mul, ← hself, sub_self]
  funext i
  rw [hrow i, (mul_eq_zero.mp htotal).resolve_right hsum, neg_zero, zero_mul]
  rfl

/-- **Blocks of an invertible matrix**, unless the number of blocks is minus one. -/
theorem isUnit_blockCirculant {M : Matrix m m F} (hM : IsUnit M) (hn : (n : F) + 1 ≠ 0) :
    IsUnit (blockCirculant n M) := by
  refine isUnit_of_mulVec_eq_zero fun v hv => ?_
  have hrow : ∀ i j, (M *ᵥ fun l => v (i, l)) j + ∑ k, (M *ᵥ fun l => v (k, l)) j = 0 := fun i j =>
    (blockCirculant_mulVec M (fun k l => v (k, l)) i j).symm.trans (congrFun hv (i, j))
  have htotal : ∀ j, ∑ k, (M *ᵥ fun l => v (k, l)) j = 0 := by
    intro j
    have hsum := Finset.sum_congr (rfl : Finset.univ = Finset.univ) fun i _ => hrow i j
    rw [Finset.sum_add_distrib, Finset.sum_const, Finset.sum_const_zero, Finset.card_univ,
      Fintype.card_fin, nsmul_eq_mul, ← one_add_mul, add_comm] at hsum
    exact (mul_eq_zero.mp hsum).resolve_left hn
  have hzero : ∀ i, (fun l => v (i, l)) = 0 := by
    intro i
    refine mulVec_injective_iff_isUnit.mpr hM ?_
    rw [mulVec_zero]
    funext j
    exact (add_zero _).symm.trans (htotal j ▸ hrow i j)
  funext i
  exact congrFun (hzero i.1) i.2

end Invertible

/-! ### Bijections

A power is a bijection of a field if it is one of the units, since only zero has the power zero. -/

variable {F : Type} {n : Type} [DecidableEq n]

theorem mulVec_bijective [Field F] [Fintype n] {M : Matrix n n F} (h : IsUnit M) :
    Function.Bijective (M *ᵥ ·) :=
  ⟨mulVec_injective_iff_isUnit.mpr h, mulVec_surjective_iff_isUnit.mpr h⟩

/-- **A power that is coprime to the order of the units**, with more than one of them. -/
theorem pow_bijective [Field F] [Finite F] (hcard : 2 < Nat.card F) {d : ℕ}
    (hd : d.Coprime (Nat.card F - 1)) : Function.Bijective fun x : F => x ^ d := by
  have hne : d ≠ 0 := by
    rintro rfl
    rw [Nat.coprime_zero_left] at hd
    omega
  have hunits : Function.Bijective fun x : Fˣ => x ^ d :=
    Nat.Coprime.pow_left_bijective (by rw [Nat.card_units]; exact hd.symm)
  refine Finite.injective_iff_bijective.mp fun x y h => ?_
  have h : x ^ d = y ^ d := h
  rcases eq_or_ne x 0 with rfl | hx
  · rw [zero_pow hne] at h
    exact (pow_eq_zero_iff hne).mp h.symm |>.symm
  · have hy : y ≠ 0 := fun hzero => hx (by rwa [hzero, zero_pow hne, pow_eq_zero_iff hne] at h)
    have hpow : Units.mk0 x hx ^ d = Units.mk0 y hy ^ d := Units.ext h
    exact congrArg Units.val (hunits.injective hpow)

/-- A bijection at one position. -/
theorem update_bijective {f : F → F} (hf : Function.Bijective f) (i : n) :
    Function.Bijective fun v : n → F => Function.update v i (f (v i)) := by
  have hpi : (fun v : n → F => Function.update v i (f (v i))) =
      Pi.map fun j => if j = i then f else id := by
    funext v j
    by_cases hj : j = i
    · subst hj
      rw [Function.update_self, Pi.map_apply, if_pos rfl]
    · rw [Function.update_of_ne hj, Pi.map_apply, if_neg hj, id]
  rw [hpi]
  refine .piMap fun j => ?_
  split
  · exact hf
  · exact Function.bijective_id

end ContractsStylus
