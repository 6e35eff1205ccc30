import Mathlib.Data.ZMod.QuotientGroup
import Mathlib.RingTheory.Coprime.Lemmas

/-!
# Orders of finite groups

The order of a finite commutative group from elements of known orders and a rough bound. The bound
comes from a function that tells elements apart up to their signs. The order is then a small
multiple of what the elements account for, and halving decides which.

## How to count without counting

The groups in question have more elements than could ever be listed. What can be computed in them
are multiples, and with those the orders of some elements. The order of the group is a multiple of
these, and `natCard_eq_two_pow_mul` is about the case in which the rough upper bound is less than
three times what they account for. So the order of the group is this number or its double.

The double is excluded by halving. If the part of the group whose orders are powers of two were
larger than the multiples of `T`, some element outside would have its double among them, and the
hypothesis says that there is none. `mem_zmultiples_of_two_nsmul` reduces it to something that can
be checked: the involutions are multiples of `T`, and `T` is not a double.

## The rough bound

A curve that is given by an equation of degree two in one of its coordinates has at most two points
for each value of the other one. `natCard_le_of_eq_or_eq_neg` says this of any group with a function
that determines an element up to its sign; it needs neither a curve nor a field.

## Main results

* `exists_injective_of_eq_or_eq_neg` — a function that tells elements apart up to their signs
* `mem_zmultiples_of_nsmul_eq_zero` — the elements of prime order
* `mem_zmultiples_of_two_pow_nsmul` — the elements whose order is a power of two
* `natCard_eq_two_pow_mul` — the order of the group
-/

namespace ContractsStylus

open AddSubgroup

variable {G : Type*} [AddCommGroup G]

/-- A function that tells elements apart up to their signs, with one more bit, tells them apart. -/
theorem exists_injective_of_eq_or_eq_neg {X : Type*} (f : G → X)
    (hf : ∀ A B, f A = f B → A = B ∨ A = -B) : ∃ g : G → X × Prop, Function.Injective g := by
  -- the bit tells whether the element is the one that is chosen from those with its image
  let chosen : X → G := Function.invFun f
  have hchosen : ∀ A, A = chosen (f A) ∨ A = -chosen (f A) := fun A =>
    hf _ _ (Function.apply_invFun_apply (f := f)).symm
  refine ⟨fun A => (f A, A = chosen (f A)), fun A B hAB => ?_⟩
  obtain ⟨hfAB, hbit⟩ := Prod.mk.inj hAB
  rcases hchosen A with hA | hA
  · have hB : B = chosen (f B) := hbit ▸ hA
    rw [hA, hB, hfAB]
  · rcases hchosen B with hB | hB
    · have hA' : A = chosen (f A) := hbit.symm ▸ hB
      rw [hA', hB, hfAB]
    · rw [hA, hB, hfAB]

section Bound

variable {X : Type*} [Finite X] {f : G → X}

theorem finite_of_eq_or_eq_neg (hf : ∀ A B, f A = f B → A = B ∨ A = -B) : Finite G := by
  obtain ⟨g, hg⟩ := exists_injective_of_eq_or_eq_neg f hf
  exact Finite.of_injective g hg

/-- **A rough bound** of the order. -/
theorem natCard_le_of_eq_or_eq_neg (hf : ∀ A B, f A = f B → A = B ∨ A = -B) :
    Nat.card G ≤ 2 * Nat.card X := by
  obtain ⟨g, hg⟩ := exists_injective_of_eq_or_eq_neg f hf
  have hle := Nat.card_le_card_of_injective g hg
  rwa [Nat.card_prod, Nat.card_eq_fintype_card (α := Prop), Fintype.card_prop, mul_comm] at hle

end Bound

/-! ### Torsion

Elements whose order is a prime, and elements whose order is a power of two: the two parts of the
group that are looked at. -/

/-- **The elements of prime order** are the multiples of one of them, if the order of the group has
no other factor in common with it. -/
theorem mem_zmultiples_of_nsmul_eq_zero {A B : G} {l m : ℕ} (hB : addOrderOf B = l)
    (hcard : Nat.card G = m * l) (hpos : 0 < l) (hcop : m.Coprime l) (hA : l • A = 0) :
    A ∈ zmultiples B := by
  have hindex : (zmultiples B).index = m := by
    refine Nat.eq_of_mul_eq_mul_right hpos ?_
    rw [← hcard, ← (zmultiples B).index_mul_card, Nat.card_zmultiples, hB]
  have hm : m • A ∈ zmultiples B := hindex ▸ (zmultiples B).nsmul_index_mem A
  obtain ⟨u, v, huv⟩ := Nat.isCoprime_iff_coprime.mpr hcop
  have hsum : A = u • m • A + v • l • A := by
    rw [← natCast_zsmul A m, ← natCast_zsmul A l, smul_smul, smul_smul, ← add_smul, huv, one_smul]
  rw [hsum, hA, smul_zero, add_zero]
  exact zsmul_mem hm u

section Halving

variable {T : G}

/-- If halving does not lead out of the multiples of `T`, they are all that some power of two takes
to them. -/
theorem mem_zmultiples_of_two_pow_nsmul (hT : ∀ A, 2 • A ∈ zmultiples T → A ∈ zmultiples T)
    (n : ℕ) {A : G} (hA : 2 ^ n • A ∈ zmultiples T) : A ∈ zmultiples T := by
  induction n with
  | zero => rwa [pow_zero, one_nsmul] at hA
  | succ n ih =>
    rw [pow_succ', mul_nsmul'] at hA
    exact ih (hT _ hA)

/-- Halving does not lead out of the multiples of `T`, if those include the involutions and `T` is
not a double. -/
theorem mem_zmultiples_of_two_nsmul (hzero : ∀ A : G, 2 • A = 0 → A ∈ zmultiples T)
    (hdouble : ∀ A : G, 2 • A ≠ T) {A : G} (hA : 2 • A ∈ zmultiples T) : A ∈ zmultiples T := by
  obtain ⟨j, hj⟩ := mem_zmultiples_iff.mp hA
  rcases Int.even_or_odd' j with ⟨i, rfl | rfl⟩
  · have hsub : A - i • T ∈ zmultiples T := by
      refine hzero _ ?_
      rw [smul_sub, ← hj, mul_smul, sub_eq_zero]
      exact natCast_zsmul (i • T) 2
    have hadd := add_mem hsub (zsmul_mem (mem_zmultiples T) i)
    rwa [sub_add_cancel] at hadd
  · refine absurd ?_ (hdouble (A - i • T))
    rw [smul_sub, ← hj, add_smul, one_smul, mul_smul, ← natCast_zsmul (i • T) 2]
    exact add_sub_cancel_left _ _

end Halving

/-! ### The order

The two elements generate a subgroup with as many elements as the product of their orders, and the
quotient is too small to be anything but one or two. -/

/-- **The order of the group**, from an element `B` of odd order and an element `T` whose order is a
power of two, if halving does not lead out of the multiples of `T` and three times the product of
the orders is more than the group has. -/
theorem natCard_eq_two_pow_mul [Finite G] {B T : G} {l k : ℕ} (hodd : Odd l)
    (hB : addOrderOf B = l) (hT : addOrderOf T = 2 ^ k)
    (hhalf : ∀ A, 2 • A ∈ zmultiples T → A ∈ zmultiples T)
    (hlt : Nat.card G < 3 * (2 ^ k * l)) : Nat.card G = 2 ^ k * l := by
  have hcop : ∀ n, (2 ^ n).Coprime l := fun n =>
    (Nat.coprime_two_left.mpr hodd).pow_left n
  have hdvd : 2 ^ k * l ∣ Nat.card G :=
    (hcop k).mul_dvd_of_dvd_of_dvd (hT ▸ addOrderOf_dvd_natCard T) (hB ▸ addOrderOf_dvd_natCard B)
  obtain ⟨c, hc⟩ := hdvd
  have hpos : 0 < Nat.card G := Nat.card_pos
  have hlow : c < 3 := by
    by_contra hge
    have hmul := Nat.mul_le_mul_left (2 ^ k * l) (not_lt.mp hge)
    omega
  have hzero : c ≠ 0 := by
    rintro rfl
    omega
  have htwo : c ≠ 2 := by
    rintro rfl
    -- twice as many elements are too many: the multiples by `l` are multiples of `T`, and what
    -- that takes to zero are the multiples of `B`
    have hcard : Nat.card G = 2 ^ (k + 1) * l := by
      rw [hc, pow_succ]
      ring
    let f : G →+ G := nsmulAddMonoidHom l
    have hker : f.ker ≤ zmultiples B := fun A hA =>
      mem_zmultiples_of_nsmul_eq_zero hB hcard hodd.pos (hcop (k + 1)) (f.mem_ker.mp hA)
    have hrange : f.range ≤ zmultiples T := by
      rintro _ ⟨A, rfl⟩
      refine mem_zmultiples_of_two_pow_nsmul hhalf (k + 1) ?_
      rw [nsmulAddMonoidHom_apply, ← mul_nsmul', ← hcard, card_nsmul_eq_zero']
      exact zero_mem _
    have hle := Nat.mul_le_mul (card_le_of_le hrange) (card_le_of_le hker)
    rw [← index_ker, index_mul_card, Nat.card_zmultiples, Nat.card_zmultiples, hB, hT, hc] at hle
    omega
  have hone : c = 1 := by omega
  rw [hc, hone, mul_one]

end ContractsStylus
