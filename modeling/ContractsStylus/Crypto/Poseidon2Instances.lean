import ContractsStylus.Crypto.FieldInstances
import ContractsStylus.Crypto.Poseidon2Permutation

/-!
# Poseidon2 by name

The parameters that come with the library. The tables of round constants are left open, but for
their shape: any constants give a bijection of states. What has to be computed are the inverses of
the diagonals of the internal matrices, and that the powers are coprime to the orders of the units.

## What is computed

The external matrix of each size is one of small integers, over every field, and it is invertible
modulo every prime above seven. An internal matrix is a diagonal with a matrix of ones added; it is
invertible if the diagonal is and the sum of the inverses is not minus one, and both are computed.
The power is a bijection if its exponent is coprime to the number of units.

## Main definitions

* `BLS2Params`, `BLS3Params`, `BLS4Params`, `BN256Params`, `PallasParams`, `VestaParams`,
  `Goldilocks12Params`, `BabyBear24Params` — the parameters, without the round constants
* `PoseidonParams.Permutes` — what they are to satisfy

## Main results

* `PoseidonParams.isUnit_externalMatrix` — the external matrices are invertible modulo large primes
* `PoseidonParams.isUnit_internalMatrix` — the internal ones, by computation
* `instances_permute` — all of the parameters permute states
-/

namespace ContractsStylus

namespace PoseidonParams

open Matrix

/-! ### Invertible layers

The numbers that decide are computed modulo the modulus, and carried over to elements of the
field. -/

section Layers

variable {N : ℕ} {Q : FpParams N} [Fact Q.p.Prime]

theorem natCast_eq_natCast_of_mod {m n : ℕ} (h : m % Q.p = n % Q.p) :
    (m : Fp.Element Q) = n := by
  refine (Fp.Element.equivZMod (P := Q)).injective ?_
  rw [map_natCast, map_natCast]
  exact (ZMod.natCast_eq_natCast_iff' m n Q.p).mpr h

theorem natCast_eq_zero_iff {m : ℕ} : (m : Fp.Element Q) = 0 ↔ Q.p ∣ m := by
  rw [← map_eq_zero_iff _ (Fp.Element.equivZMod (P := Q)).injective, map_natCast,
    ZMod.natCast_eq_zero_iff]

theorem fromNum_eq_natCast {m : ℕ} (h : m < 2 ^ (64 * N)) :
    (Fp.Element.fromNum m : Fp.Element Q) = m := by
  refine Fp.Element.toZMod_injective ?_
  rw [Fp.Element.toZMod_fromNum h]
  exact (map_natCast (Fp.Element.equivZMod (P := Q)) m).symm

theorem natCast_ne_zero {m : ℕ} (hpos : 0 < m) (hlt : m < Q.p) : (m : Fp.Element Q) ≠ 0 :=
  fun hzero => absurd (Nat.le_of_dvd hpos (natCast_eq_zero_iff.mp hzero)) (by omega)

theorem det_M4 (F : Type) [Field F] : (M4 F).det = -64 := by
  simp [M4, det_succ_row_zero, Fin.sum_univ_succ, Fin.succAbove, submatrix]
  norm_num

/-- **The external matrices** are invertible modulo every prime above seven. -/
theorem isUnit_externalMatrix (hp : 7 < Q.p) {t : ℕ} (ht : t ∈ stateSizes) :
    IsUnit (externalMatrix (Fp.Element Q) t) := by
  have hM4 : IsUnit (M4 (Fp.Element Q)) := by
    have hpow : (-64 : Fp.Element Q) = -((2 : ℕ) ^ 6) := by norm_num
    rw [isUnit_iff_isUnit_det, det_M4, isUnit_iff_ne_zero, hpow]
    exact neg_ne_zero.mpr (pow_ne_zero 6 (natCast_ne_zero (by norm_num) (by omega)))
  have hblocks : ∀ k, k + 1 < 8 → IsUnit (blockM4 (Fp.Element Q) k) := by
    intro k hk
    have hne : (k : Fp.Element Q) + 1 ≠ 0 := by
      rw [← Nat.cast_add_one]
      exact natCast_ne_zero (by omega) (by omega)
    exact (isUnit_blockCirculant hM4 hne).map (reindexRingEquiv _ finProdFinEquiv)
  have hones : ∀ k, k + 1 < 8 →
      IsUnit (of (fun _ _ => 1) + diagonal fun _ : Fin k => (1 : Fp.Element Q)) := by
    intro k hk
    refine isUnit_ones_add_diagonal (e := fun _ => 1) (fun _ => mul_one 1) ?_
    rw [Finset.sum_const, Finset.card_univ, Fintype.card_fin, nsmul_one, add_comm,
      ← Nat.cast_add_one]
    exact natCast_ne_zero (by omega) (by omega)
  rcases mem_stateSizes.mp ht with rfl | rfl | rfl | rfl | rfl | rfl | rfl | rfl
  · convert hones 2 (by norm_num) using 1
    ext i j
    fin_cases i <;> fin_cases j <;> simp [externalMatrix, circulant]
    all_goals norm_num
  · convert hones 3 (by norm_num) using 1
    ext i j
    fin_cases i <;> fin_cases j <;> simp [externalMatrix, circulant]
    all_goals norm_num
  · exact hM4
  · exact hblocks 2 (by norm_num)
  · exact hblocks 3 (by norm_num)
  · exact hblocks 4 (by norm_num)
  · exact hblocks 5 (by norm_num)
  · exact hblocks 6 (by norm_num)

/-- Whether the numbers have inverses, which are powers, and the sum of these is not minus one. -/
def diagonalCheck (p : ℕ) (nums : List ℕ) : Bool :=
  nums.all (fun a => a * powMod p a (p - 2) % p = 1 % p) &&
    (1 + (nums.map fun a => powMod p a (p - 2)).sum) % p ≠ 0

/-- **The internal matrix** is invertible, if its diagonal has the numbers of a table that passes
the check. -/
theorem isUnit_internalMatrix (P : PoseidonParams (Fp.Element Q)) {nums : List ℕ}
    (hlen : nums.length = P.T)
    (hdiag : ∀ i : Fin P.T, internalDiagonal P.MAT_INTERNAL_DIAG_M_1 P.T i = (nums.getD i 0 : ℕ))
    (hcheck : diagonalCheck Q.p nums = true) : IsUnit P.internalMatrix := by
  simp only [diagonalCheck, Bool.and_eq_true, List.all_eq_true, decide_eq_true_iff] at hcheck
  obtain ⟨hinv, hsum⟩ := hcheck
  refine isUnit_ones_add_diagonal
    (e := fun i => (powMod Q.p (nums.getD i 0) (Q.p - 2) : ℕ)) (fun i => ?_) ?_
  · have hmem : nums.getD i 0 ∈ nums := by
      rw [List.getD_eq_getElem _ _ (i.isLt.trans_eq hlen.symm)]
      exact List.getElem_mem _
    rw [hdiag, ← Nat.cast_mul, ← Nat.cast_one]
    exact natCast_eq_natCast_of_mod (hinv _ hmem)
  · have htotal : ∑ i : Fin P.T, powMod Q.p (nums.getD i 0) (Q.p - 2) =
        (nums.map fun a => powMod Q.p a (Q.p - 2)).sum := by
      rw [← Finset.sum_range fun i => powMod Q.p (nums.getD i 0) (Q.p - 2), ← hlen,
        Finset.sum_range, ← Fin.sum_univ_fun_getElem]
      exact Finset.sum_congr rfl fun i _ => by rw [List.getD_eq_getElem _ _ i.isLt]
    rw [← Nat.cast_sum, htotal, ← Nat.cast_one, ← Nat.cast_add, ne_eq, natCast_eq_zero_iff]
    exact fun hdvd => hsum (Nat.mod_eq_zero_of_dvd hdvd)

end Layers

/-! ### The permutation

One check for each set of parameters, and one theorem about all parameters that pass it. -/

section Permutes

variable {F : Type} [Field F]

/-- **The permutation of the parameters**: it is a bijection of states and does not panic, and the
internal layer is the one of the table, also for the sizes for which it is written out. -/
structure Permutes (P : PoseidonParams F) : Prop where
  bijective : ∃ g : (Fin P.T → F) → Fin P.T → F, Function.Bijective g ∧
    ∀ v, P.permute (List.ofFn v) = .ok (List.ofFn (g v))
  internal : ∀ v : Fin P.T → F, P.matmulInternal (List.ofFn v) =
    .ok (List.ofFn fun i => v i * P.MAT_INTERNAL_DIAG_M_1.getD i 0 + ∑ j, v j)

/-- For two and three elements the diagonal is written out, and the table is not read. -/
theorem internalDiagonal_eq {t : ℕ} {diag : List F} (htwo : t = 2 → diag = [1, 2])
    (hthree : t = 3 → diag = [1, 1, 2]) (i : Fin t) :
    internalDiagonal diag t i = diag.getD i 0 := by
  unfold internalDiagonal
  split
  · rw [htwo rfl]
    fin_cases i <;> rfl
  · rw [hthree rfl]
    fin_cases i <;> rfl
  · rfl

/-- The constants of as many rounds, one or more for each round. -/
def Constants (rounds : ℕ) (roundConstants : List (List F)) : Prop :=
  rounds ≤ roundConstants.length ∧ ∀ c ∈ roundConstants, c ≠ []

variable {N : ℕ} {Q : FpParams N} [Fact Q.p.Prime]

/-- What parameters are checked for: the size of the state, the power and the diagonal. -/
def instanceCheck (p limbs t d : ℕ) (nums : List ℕ) : Bool :=
  7 < p && t ∈ stateSizes && d.Coprime (p - 1) && nums.length = t && diagonalCheck p nums &&
    nums.all (· < 2 ^ (64 * limbs)) && (t ≠ 2 || nums = [1, 2]) && (t ≠ 3 || nums = [1, 1, 2])

/-- **Parameters that pass the check** permute states. -/
theorem Permutes.of_check (P : PoseidonParams (Fp.Element Q)) {p : ℕ} (t d : ℕ) (nums : List ℕ)
    (hp : Q.p = p) (hT : P.T = t) (hD : P.D.toNat = d)
    (hmat : P.MAT_INTERNAL_DIAG_M_1 = nums.map .fromNum)
    (hcheck : instanceCheck p N t d nums = true)
    (hconstants : Constants P.rounds P.ROUND_CONSTANTS) : P.Permutes := by
  simp only [instanceCheck, Bool.and_eq_true, Bool.or_eq_true, decide_eq_true_iff,
    List.all_eq_true, ← hp, ← hT, ← hD, ne_eq, ← imp_iff_not_or] at hcheck
  obtain ⟨⟨⟨⟨⟨⟨⟨hlarge, hsize⟩, hpow⟩, hlen⟩, hdiagonal⟩, hlt⟩, htwo⟩, hthree⟩ := hcheck
  have hlength : P.T ≤ P.MAT_INTERNAL_DIAG_M_1.length := by
    rw [hmat, List.length_map, hlen]
  have hnums : nums.map .fromNum = nums.map (Nat.cast : ℕ → Fp.Element Q) :=
    List.map_congr_left fun a ha => fromNum_eq_natCast (hlt a ha)
  have hdiag : ∀ i : Fin P.T, internalDiagonal P.MAT_INTERNAL_DIAG_M_1 P.T i =
      P.MAT_INTERNAL_DIAG_M_1.getD i 0 :=
    internalDiagonal_eq (fun h => by rw [hmat, hnums, htwo h]; simp)
      (fun h => by rw [hmat, hnums, hthree h]; simp)
  have htable : ∀ i : Fin P.T,
      P.MAT_INTERNAL_DIAG_M_1.getD i 0 = ((nums.getD i 0 : ℕ) : Fp.Element Q) := by
    intro i
    have hi : i.val < nums.length := i.isLt.trans_eq hlen.symm
    rw [hmat, hnums, List.getD_eq_getElem _ _ (by rwa [List.length_map]), List.getElem_map,
      List.getD_eq_getElem _ _ hi]
  have hunit : IsUnit P.internalMatrix :=
    isUnit_internalMatrix P hlen (fun i => (hdiag i).trans (htable i)) hdiagonal
  have hsupported : P.Supported := ⟨hsize, hlength, hconstants.1, hconstants.2⟩
  constructor
  · exact hsupported.exists_bijective (bijects_permute hsize (fun _ => hlength)
      (isUnit_externalMatrix hlarge hsize) hunit (element_pow_bijective hpow))
  · intro v
    rw [matmulInternal_eq P hsize (fun _ => hlength) v]
    refine congrArg (fun w => Except.ok (List.ofFn w)) (funext fun i => ?_)
    rw [internalMatrix_mulVec, hdiag]

end Permutes

end PoseidonParams

/-! ### The parameters

The tables of round constants are arguments, since what is proved holds for any constants of the
right shape. -/

def BLS2Params (roundConstants : List (List FpBLS12)) : PoseidonParams FpBLS12 where
  T := 2
  D := 5
  CAPACITY := 1
  ROUNDS_F := 8
  ROUNDS_P := 56
  MAT_INTERNAL_DIAG_M_1 := [1, 2].map .fromNum
  ROUND_CONSTANTS := roundConstants

def BLS3Params (roundConstants : List (List FpBLS12)) : PoseidonParams FpBLS12 where
  T := 3
  D := 5
  CAPACITY := 1
  ROUNDS_F := 8
  ROUNDS_P := 56
  MAT_INTERNAL_DIAG_M_1 := [1, 1, 2].map .fromNum
  ROUND_CONSTANTS := roundConstants

def bls4Diagonal : List ℕ :=
  [0x7564ad691bf01c8601d68757a561d224f00f313ada673ab83e6255fb4fd5b3d,
   0x6184e3be38549f7c0850cd069b32f6decbfde312dd4b8c18349b1b3776a6eaa4,
   0x419289088178ad742be6f78425c0156b6546a18fd338f0169937dea46cfb64d2,
   0x3244cdec173b71a4659e2529b499362dac10cb2fd17562860c8bb9d0fd45b787]

def BLS4Params (roundConstants : List (List FpBLS12)) : PoseidonParams FpBLS12 where
  T := 4
  D := 5
  CAPACITY := 1
  ROUNDS_F := 8
  ROUNDS_P := 56
  MAT_INTERNAL_DIAG_M_1 := bls4Diagonal.map .fromNum
  ROUND_CONSTANTS := roundConstants

def BN256Params (roundConstants : List (List FpBN256)) : PoseidonParams FpBN256 where
  T := 3
  D := 5
  CAPACITY := 1
  ROUNDS_F := 8
  ROUNDS_P := 56
  MAT_INTERNAL_DIAG_M_1 := [1, 1, 2].map .fromNum
  ROUND_CONSTANTS := roundConstants

def PallasParams (roundConstants : List (List FpPallas)) : PoseidonParams FpPallas where
  T := 3
  D := 5
  CAPACITY := 1
  ROUNDS_F := 8
  ROUNDS_P := 56
  MAT_INTERNAL_DIAG_M_1 := [1, 1, 2].map .fromNum
  ROUND_CONSTANTS := roundConstants

def VestaParams (roundConstants : List (List FpVesta)) : PoseidonParams FpVesta where
  T := 3
  D := 5
  CAPACITY := 1
  ROUNDS_F := 8
  ROUNDS_P := 56
  MAT_INTERNAL_DIAG_M_1 := [1, 1, 2].map .fromNum
  ROUND_CONSTANTS := roundConstants

def goldilocks12Diagonal : List ℕ :=
  [0xc3b6c08e23ba9300, 0xd84b5de94a324fb6, 0xd0c371c5b35b84f, 0x7964f570e7188037,
   0x5daf18bbd996604b, 0x6743bc47b9595257, 0x5528b9362c59bb70, 0xac45e25b7127b68b,
   0xa2077d7dfbb606b5, 0xf3faac6faee378ae, 0xc6388b51545e883, 0xd27dbb6944917b60]

def Goldilocks12Params (roundConstants : List (List FpGoldiLocks)) :
    PoseidonParams FpGoldiLocks where
  T := 12
  D := 7
  CAPACITY := 4
  ROUNDS_F := 8
  ROUNDS_P := 22
  MAT_INTERNAL_DIAG_M_1 := goldilocks12Diagonal.map .fromNum
  ROUND_CONSTANTS := roundConstants

def babyBear24Diagonal : List ℕ :=
  [0x409133f0, 0x1667a8a1, 0x6a6c7b6, 0x6f53160e, 0x273b11d1, 0x3176c5d, 0x72f9bbf9, 0x73ceba91,
   0x5cdef81d, 0x1393285, 0x46daee06, 0x65d7ba6, 0x52d72d6f, 0x5dd05e0, 0x3bab4b63, 0x6ada3842,
   0x2fc5fbec, 0x770d61b0, 0x5715aae9, 0x3ef0e90, 0x75b6c770, 0x242adf5f, 0xd0ca4c, 0x36c0e388]

def BabyBear24Params (roundConstants : List (List FpBabyBear)) : PoseidonParams FpBabyBear where
  T := 24
  D := 7
  CAPACITY := 4
  ROUNDS_F := 8
  ROUNDS_P := 21
  MAT_INTERNAL_DIAG_M_1 := babyBear24Diagonal.map .fromNum
  ROUND_CONSTANTS := roundConstants

/-! ### The permutations -/

open PoseidonParams

/-- **All parameters permute states**, whatever constants there are for as many rounds. The power
and the matrices of each of them are invertible, the permutation is a bijection of states that does
not panic, and the internal matrix that is written out for two and three elements is that of the
table. -/
theorem instances_permute :
    (∀ c, Constants 64 c → (BLS2Params c).Permutes) ∧
    (∀ c, Constants 64 c → (BLS3Params c).Permutes) ∧
    (∀ c, Constants 64 c → (BLS4Params c).Permutes) ∧
    (∀ c, Constants 64 c → (BN256Params c).Permutes) ∧
    (∀ c, Constants 64 c → (PallasParams c).Permutes) ∧
    (∀ c, Constants 64 c → (VestaParams c).Permutes) ∧
    (∀ c, Constants 30 c → (Goldilocks12Params c).Permutes) ∧
    ∀ c, Constants 29 c → (BabyBear24Params c).Permutes := by
  refine ⟨fun c hc => ?_, fun c hc => ?_, fun c hc => ?_, fun c hc => ?_, fun c hc => ?_,
    fun c hc => ?_, fun c hc => ?_, fun c hc => ?_⟩
  · exact .of_check _ 2 5 [1, 2] (FpParams.p_ofNum ..) rfl rfl rfl (by decide +kernel) hc
  · exact .of_check _ 3 5 [1, 1, 2] (FpParams.p_ofNum ..) rfl rfl rfl (by decide +kernel) hc
  · exact .of_check _ 4 5 bls4Diagonal (FpParams.p_ofNum ..) rfl rfl rfl (by decide +kernel) hc
  · exact .of_check _ 3 5 [1, 1, 2] (FpParams.p_ofNum ..) rfl rfl rfl (by decide +kernel) hc
  · exact .of_check _ 3 5 [1, 1, 2] (FpParams.p_ofNum ..) rfl rfl rfl (by decide +kernel) hc
  · exact .of_check _ 3 5 [1, 1, 2] (FpParams.p_ofNum ..) rfl rfl rfl (by decide +kernel) hc
  · exact .of_check _ 12 7 goldilocks12Diagonal (FpParams.p_ofNum ..) rfl rfl rfl
      (by decide +kernel) hc
  · exact .of_check _ 24 7 babyBear24Diagonal (FpParams.p_ofNum ..) rfl rfl rfl
      (by decide +kernel) hc

/-- With ones for the constants: one in each round, and with the widest state as many as it has
elements. -/
theorem instances_permute_ones :
    (BLS2Params (List.replicate 64 [1])).Permutes ∧
      (BLS4Params (List.replicate 64 [1])).Permutes ∧
      (Goldilocks12Params (List.replicate 30 [1])).Permutes ∧
      (BabyBear24Params (List.replicate 29 (List.replicate 24 1))).Permutes := by
  have hones : ∀ {F : Type} [Field F] (n : ℕ) {row : List F}, row ≠ [] →
      Constants n (List.replicate n row) := fun n row hrow =>
    ⟨List.length_replicate.ge, fun c hc => List.eq_of_mem_replicate hc ▸ hrow⟩
  obtain ⟨h2, -, h4, -, -, -, h12, h24⟩ := instances_permute
  exact ⟨h2 _ (hones 64 (List.cons_ne_nil _ _)), h4 _ (hones 64 (List.cons_ne_nil _ _)),
    h12 _ (hones 30 (List.cons_ne_nil _ _)), h24 _ (hones 29 (List.cons_ne_nil _ _))⟩

end ContractsStylus
