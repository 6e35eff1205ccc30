import ContractsStylus.Curve.WeierstrassInstances

/-!
# Logarithms of the Pedersen hash

All points of the Starknet curve are multiples of its generator, those of the Pedersen hash too. So
the hash is the coordinate of a multiple by a linear form in the parts of the inputs, whose
coefficients are the logarithms of the five points, and collisions are equations between values of
the form.

## An equation of residues

With the logarithms of the five points the hash is a function of one residue modulo the order of the
group. Two pairs of inputs collide if and only if their residues are equal or opposite. The
logarithms exist and are not computed; the result is about any that there are.

## Main definitions

* `PedersenParams.points` — the five points
* `Pedersen.logForm` — the linear form

## Main results

* `Pedersen.exists_logarithms` — the logarithms, and the sum of the points as a multiple
* `pedersen_collisions` — which pairs of inputs collide
-/

namespace ContractsStylus

open Starknet

/-- The five points. -/
def PedersenParams.points {N : ℕ} {Q : FpParams N} (params : PedersenParams Q) :
    Fin 5 → Sw.Affine (Fp.Element Q) :=
  ![params.P_0, params.P_1, params.P_2, params.P_3, params.P_4]

namespace Pedersen

/-- The linear form with coefficients `k`, in the parts of `x` and `y`. -/
def logForm (k : Fin 5 → Fr) (x y : Fq) : Fr := ∑ i, coefficients 248 x y i • k i

theorem Sound.represents {N : ℕ} {Q : FpParams N} [Fact Q.p.Prime] {params : PedersenParams Q}
    {P : SWCurveConfig (Fp.Element Q)} {A : Fin 5 → P.Point} (h : Sound params P A) (i : Fin 5) :
    (params.points i).Represents (A i) := by
  fin_cases i
  · exact h.P_0
  · exact h.P_1
  · exact h.P_2
  · exact h.P_3
  · exact h.P_4

theorem xCoordinate_neg {F : Type} [Field F] {P : SWCurveConfig F} (A : P.Point) :
    xCoordinate (-A) = xCoordinate A := by
  cases A with
  | zero => rfl
  | some x y hxy => rfl

/-- Equal coordinates, at infinity too, are those of equal or of opposite points. -/
theorem xCoordinate_eq_iff {F : Type} [Field F] [DecidableEq F] {P : SWCurveConfig F}
    {A B : P.Point} : xCoordinate A = xCoordinate B ↔ A = B ∨ A = -B := by
  refine ⟨Sw.eq_or_eq_neg_of_xCoordinate, ?_⟩
  rintro (rfl | rfl)
  · rfl
  · exact xCoordinate_neg B

/-- **Logarithms of the five points**, and an embedding of the scalar field by which the hash is
computed. -/
theorem exists_logarithms : ∃ (k : Fin 5 → Fr) (multiple : Fr →+ Point),
    Function.Injective multiple ∧
    (∀ i, (GENERATOR.mul StarknetCurveConfig (k i)).eq
      (.ofAffine (StarknetPedersenParams.points i)) = true) ∧
    ∀ x y : Fq, hash StarknetPedersenParams StarknetCurveConfig x y =
      some (xCoordinate (multiple (logForm k x y))) := by
  obtain ⟨A, hA⟩ := exists_sound
  obtain ⟨B, hB, horder, hcard⟩ := exists_generator
  have hzero : ∀ A : Point, StarknetFrParam.p • A = 0 := fun A => by
    rw [← hcard]
    exact card_nsmul_eq_zero'
  have hscalar : ∀ A : Point, ∃! k : Fr, k.intoBigint.toNat • B = A := fun A =>
    existsUnique_scalar horder (mem_zmultiples_of_nsmul_eq_zero horder
      (hcard.trans (one_mul _).symm) StarknetFrParam.p_pos (Nat.coprime_one_left _) (hzero A))
  choose k hk using fun i => (hscalar (A i)).exists
  refine ⟨k, scalarHom (hzero B), fun j j' hj => ?_, fun i => ?_, fun x y => ?_⟩
  · exact (hscalar _).unique hj rfl
  · exact ((hB.mul elliptic (k i)).eq_iff (hA.represents i).ofAffine).mpr (hk i)
  · have hsum : ∑ i, coefficients 248 x y i • A i = scalarHom (hzero B) (logForm k x y) := by
      rw [logForm, map_sum]
      refine Finset.sum_congr rfl fun i _ => ?_
      rw [map_zsmul]
      exact congrArg _ (hk i).symm
    rw [← hsum]
    exact hA.hash_eq x y

end Pedersen

open Pedersen in
/-- **Collisions are equations between logarithms.** The five points of the Pedersen hash of
Starknet are the multiples of the generator by five scalars. Two pairs of inputs have the same hash
exactly when the linear form of these scalars in the parts of the inputs has equal or opposite
values, and there is no hash exactly where it is zero. -/
theorem pedersen_collisions : ∃ k : Fin 5 → Fr,
    (∀ i, (GENERATOR.mul StarknetCurveConfig (k i)).eq
      (.ofAffine (StarknetPedersenParams.points i)) = true) ∧
    ∀ x y : Fq,
      (hash StarknetPedersenParams StarknetCurveConfig x y = some none ↔ logForm k x y = 0) ∧
      ∀ x' y' : Fq, hash StarknetPedersenParams StarknetCurveConfig x y =
          hash StarknetPedersenParams StarknetCurveConfig x' y' ↔
        logForm k x y = logForm k x' y' ∨ logForm k x y = -logForm k x' y' := by
  obtain ⟨k, multiple, hinj, hk, hhash⟩ := exists_logarithms
  refine ⟨k, hk, fun x y => ⟨?_, fun x' y' => ?_⟩⟩
  · rw [hhash, Option.some_inj, xCoordinate_eq_none, map_eq_zero_iff multiple hinj]
  · rw [hhash, hhash, Option.some_inj, xCoordinate_eq_iff, ← map_neg, hinj.eq_iff, hinj.eq_iff]

end ContractsStylus
