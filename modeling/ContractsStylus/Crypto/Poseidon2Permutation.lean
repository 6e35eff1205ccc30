import ContractsStylus.Crypto.FpField
import ContractsStylus.Crypto.Poseidon2
import ContractsStylus.Library.SubstitutionNetwork
import Mathlib.Tactic.NormNum.Prime

/-!
# Poseidon2 as a permutation

The linear layers are products with matrices, which the code computes by adding sums in place. So
every layer of a round is a bijection of states, and the permutation is one.

## Layers

A state of the right size is a vector, and each step of the permutation is a map on such vectors: a
matrix, the addition of constants, a power of all elements or of the first one. `Bijects` says of a
function on lists that on states of this size it is a bijection, or panics on all of them; that is
closed under composition, so the rounds and the permutation follow.

The code applies the matrices by sums in place, with temporaries that are shared between rows. Each
is compared with its matrix once, by blocks of four for the sizes that are made of blocks.

## Main definitions

* `PoseidonParams.externalMatrix`, `PoseidonParams.internalMatrix` — the matrices
* `PoseidonParams.Bijects` — a bijection of states, or a panic on all of them

## Main results

* `PoseidonParams.matmulExternal_eq`, `PoseidonParams.matmulInternal_eq` — the linear layers
* `PoseidonParams.bijects_permute` — the permutation
* `PoseidonParams.linearLayers_permute` — all of it, over the prime fields
-/

namespace ContractsStylus

namespace PoseidonParams

open Matrix

/-! ### The matrices

What the layers are compared with. For the sizes that are multiples of four the matrix of the
external rounds is made of blocks, and for four it is a single block, which is not doubled. -/

section Matrices

variable (F : Type) [Field F]

/-- The matrix of four elements. -/
def M4 : Matrix (Fin 4) (Fin 4) F :=
  !![5, 7, 1, 3;
     4, 6, 1, 1;
     1, 3, 5, 7;
     1, 1, 4, 6]

/-- `circ(2 * M4, M4, …, M4)`, with `n` blocks in each row. -/
def blockM4 (n : ℕ) : Matrix (Fin (n * 4)) (Fin (n * 4)) F :=
  reindex finProdFinEquiv finProdFinEquiv (blockCirculant n (M4 F))

/-- The matrix of the external rounds, for the supported state sizes. -/
def externalMatrix : (t : ℕ) → Matrix (Fin t) (Fin t) F
  | 2 => circulant ![2, 1]
  | 3 => circulant ![2, 1, 1]
  | 4 => M4 F
  | 8 => blockM4 F 2
  | 12 => blockM4 F 3
  | 16 => blockM4 F 4
  | 20 => blockM4 F 5
  | 24 => blockM4 F 6
  | _ => 0

variable {F}

/-- The diagonal of the internal rounds, less one. -/
def internalDiagonal (matInternalDiagM1 : List F) : (t : ℕ) → Fin t → F
  | 2 => ![1, 2]
  | 3 => ![1, 1, 2]
  | _ => fun i => matInternalDiagM1.getD i 0

/-- The matrix of the internal rounds: ones, and the diagonal. -/
def internalMatrix (P : PoseidonParams F) : Matrix (Fin P.T) (Fin P.T) F :=
  of (fun _ _ => 1) + diagonal (internalDiagonal P.MAT_INTERNAL_DIAG_M_1 P.T)

end Matrices

/-! ### States of a size

A state is a list in the code, and indexing a list may fail. The lists here are those of a vector of
the right size, for which every index that occurs is good. -/

section States

variable {F : Type} {n : ℕ} {v : Fin n → F} {i : ℕ}

theorem index_ofFn {E : Type} (hi : i < n) :
    (index (List.ofFn v) i : Result E F) = .ok (v ⟨i, hi⟩) := by
  rw [index_eq_ok, List.getElem?_ofFn, dif_pos hi]

theorem set_ofFn (hi : i < n) (x : F) :
    (List.ofFn v).set i x = List.ofFn (Function.update v ⟨i, hi⟩ x) := by
  refine List.ext_getElem (by simp) fun j h1 h2 => ?_
  rw [List.getElem_set, List.getElem_ofFn, List.getElem_ofFn]
  by_cases hij : i = j
  · subst hij
    rw [if_pos rfl, Function.update_self]
  · rw [if_neg hij, Function.update_of_ne (by simpa [Fin.ext_iff] using Ne.symm hij)]

theorem modifyIndex_ofFn (hi : i < n) (f : F → F) : modifyIndex (List.ofFn v) i f =
    .ok (List.ofFn (Function.update v ⟨i, hi⟩ (f (v ⟨i, hi⟩)))) := by
  rw [modifyIndex, index_ofFn hi, ok_bind, set_ofFn hi]
  rfl

/-- **A loop over all positions**, in which each pass changes what is at its position by itself. -/
theorem foldlM_range_update {α : Type} (state : (Fin n → α) → List F)
    {body : List F → ℕ → Panics (List F)} (g : Fin n → α → α)
    (hbody : ∀ (w : Fin n → α) (i : Fin n),
      body (state w) i = .ok (state (Function.update w i (g i (w i))))) (w : Fin n → α) :
    (List.range n).foldlM body (state w) = .ok (state fun i => g i (w i)) := by
  have hstart : ∀ m ≤ n, (List.range m).foldlM body (state w) =
      .ok (state fun i => if i.val < m then g i (w i) else w i) := by
    intro m
    induction m with
    | zero => exact fun _ => rfl
    | succ m ih =>
      intro hm
      rw [List.range_succ, List.foldlM_append, ih (by omega), ok_bind, List.foldlM_cons,
        hbody _ ⟨m, hm⟩, ok_bind, if_neg (lt_irrefl m)]
      refine congrArg (fun w => Except.ok (state w)) (funext fun i => ?_)
      by_cases hi : i = ⟨m, hm⟩
      · subst hi
        rw [Function.update_self, if_pos (Nat.lt_succ_self m)]
      · have hne : i.val ≠ m := fun h => hi (Fin.ext h)
        rw [Function.update_of_ne hi]
        exact if_congr (by omega) rfl rfl
  rw [hstart n le_rfl]
  exact congrArg (fun w => Except.ok (state w)) (funext fun i => if_pos i.isLt)

end States

/-! ### Blocks of four elements

A position is a block and a place in it. The loops over blocks change one block at a time, and leave
the others as they find them. -/

section Blocks

variable {F : Type} {k : ℕ} {u : Fin k → Fin 4 → F} {a : Fin k} {b : Fin 4} {i : ℕ}

/-- The state with the blocks `u`. -/
def blockState (u : Fin k → Fin 4 → F) : List F :=
  List.ofFn fun i : Fin (k * 4) => u (finProdFinEquiv.symm i).1 (finProdFinEquiv.symm i).2

theorem length_blockState : (blockState u).length = k * 4 := List.length_ofFn

theorem exists_fin_eq_block (hi : i = a.val * 4 + b.val) :
    ∃ hlt : i < k * 4, (⟨i, hlt⟩ : Fin (k * 4)) = finProdFinEquiv (a, b) := by
  have hpos : i = (finProdFinEquiv (a, b)).val := by
    rw [hi, mul_comm, add_comm]
    rfl
  exact ⟨hpos ▸ (finProdFinEquiv (a, b)).isLt, Fin.ext hpos⟩

theorem index_blockState {E : Type} (hi : i = a.val * 4 + b.val) :
    (index (blockState u) i : Result E F) = .ok (u a b) := by
  obtain ⟨hlt, hfin⟩ := exists_fin_eq_block hi
  rw [blockState, index_ofFn hlt, hfin, Equiv.symm_apply_apply]

theorem set_blockState (hi : i = a.val * 4 + b.val) (x : F) : (blockState u).set i x =
    blockState (Function.update u a (Function.update (u a) b x)) := by
  obtain ⟨hlt, hfin⟩ := exists_fin_eq_block hi
  rw [blockState, set_ofFn hlt, hfin, blockState]
  refine congrArg List.ofFn (funext fun j => ?_)
  obtain ⟨⟨c, d⟩, rfl⟩ := finProdFinEquiv.surjective j
  rw [Equiv.symm_apply_apply]
  by_cases hc : c = a
  · subst hc
    rw [Function.update_self]
    by_cases hd : d = b
    · subst hd
      rw [Function.update_self, Function.update_self]
    · rw [Function.update_of_ne hd, Function.update_of_ne, Equiv.symm_apply_apply]
      exact fun h => hd (Prod.ext_iff.mp (finProdFinEquiv.injective h)).2
  · rw [Function.update_of_ne hc, Function.update_of_ne, Equiv.symm_apply_apply]
    exact fun h => hc (Prod.ext_iff.mp (finProdFinEquiv.injective h)).1

theorem ofFn_eq_blockState (v : Fin (k * 4) → F) :
    List.ofFn v = blockState fun a b => v (finProdFinEquiv (a, b)) := by
  refine congrArg List.ofFn (funext fun i => ?_)
  exact congrArg v (finProdFinEquiv.apply_symm_apply i).symm

variable [Field F]

/-- **One block**: the sums are the product with `M4`. -/
theorem m4_eq (u : Fin k → Fin 4 → F) (a : Fin k) :
    m4 (blockState u) a = .ok (blockState (Function.update u a (M4 F *ᵥ u a))) := by
  have h0 : a.val * 4 = a.val * 4 + (0 : Fin 4).val := rfl
  have h1 : a.val * 4 + 1 = a.val * 4 + (1 : Fin 4).val := rfl
  have h2 : a.val * 4 + 2 = a.val * 4 + (2 : Fin 4).val := rfl
  have h3 : a.val * 4 + 3 = a.val * 4 + (3 : Fin 4).val := rfl
  rw [m4, index_blockState h0, ok_bind, index_blockState h1, ok_bind, index_blockState h2, ok_bind,
    index_blockState h3, ok_bind]
  dsimp only
  rw [set_blockState h0, set_blockState h1, set_blockState h2, set_blockState h3]
  simp only [Function.update_idem, Function.update_self, double_eq]
  refine congrArg (fun w => Except.ok (blockState (Function.update u a w))) (funext fun b => ?_)
  fin_cases b <;> simp [M4, mulVec, dotProduct, Fin.sum_univ_four] <;> ring

variable {P : PoseidonParams F}

/-- **All blocks.** -/
theorem matmulM4_eq (hT : P.T = k * 4) (u : Fin k → Fin 4 → F) :
    P.matmulM4 (blockState u) = .ok (blockState fun a => M4 F *ᵥ u a) := by
  rw [matmulM4, hT, Nat.mul_div_cancel _ (by norm_num)]
  exact foldlM_range_update blockState (fun _ => (M4 F *ᵥ ·)) m4_eq u

/-- The sum of the elements at one position of all blocks. -/
theorem stored_eq (hT : P.T = k * 4) (hk : 0 < k) (u : Fin k → Fin 4 → F) (b : Fin 4) :
    P.stored (blockState u) b = .ok (∑ a, u a b) := by
  obtain ⟨e, he⟩ : ∃ e : ℕ → F, ∀ (j : ℕ) (hj : j < k), u ⟨j, hj⟩ b = e j :=
    ⟨fun j => if h : j < k then u ⟨j, h⟩ b else 0, fun j hj => by simp [hj]⟩
  have hsum : ∑ a, u a b = ∑ j ∈ Finset.range k, e j := by
    rw [Finset.sum_range]
    exact Finset.sum_congr rfl fun a _ => he a.val a.isLt
  have hindex : ∀ j < k, (index (blockState u) (4 * j + b) : Panics F) = .ok (e j) := by
    intro j hj
    rw [index_blockState (a := ⟨j, hj⟩) (b := b) (by rw [mul_comm]), he]
  have hfold : ∀ m, m + 1 ≤ k → (List.range' 1 m).foldlM (fun a j => do
      let b ← index (blockState u) (4 * j + b)
      pure (a + b)) (e 0) = (.ok (∑ j ∈ Finset.range (m + 1), e j) : Panics F) := by
    intro m
    induction m with
    | zero =>
      intro _
      rw [Finset.sum_range_one]
      rfl
    | succ m ih =>
      intro hm
      rw [List.range'_1_concat, List.foldlM_append, ih (by omega), ok_bind, List.foldlM_cons,
        hindex _ (by omega), ok_bind, Finset.sum_range_succ _ (m + 1), add_comm 1]
      rfl
  have hfirst := hindex 0 hk
  rw [mul_zero, zero_add] at hfirst
  rw [stored, hfirst, ok_bind, hT, Nat.mul_div_cancel _ (by norm_num), hfold _ (by omega),
    Nat.sub_add_cancel hk, hsum]

/-- **The external layer** on blocks: the sums at each position are added. -/
theorem matmulExternal_blockState (hT : P.T = k * 4) (hmem : P.T ∈ [8, 12, 16, 20, 24])
    (u : Fin k → Fin 4 → F) : P.matmulExternal (blockState u) =
      .ok (blockState fun a b => (M4 F *ᵥ u a) b + ∑ c, (M4 F *ᵥ u c) b) := by
  have hlarge : 8 ≤ P.T := by
    simp only [List.mem_cons, List.not_mem_nil, or_false] at hmem
    omega
  have hk : 0 < k := by omega
  have hstored := stored_eq hT hk fun a => M4 F *ᵥ u a
  have h0 : P.stored (blockState fun a => M4 F *ᵥ u a) 0 = _ := hstored 0
  have h1 : P.stored (blockState fun a => M4 F *ᵥ u a) 1 = _ := hstored 1
  have h2 : P.stored (blockState fun a => M4 F *ᵥ u a) 2 = _ := hstored 2
  have h3 : P.stored (blockState fun a => M4 F *ᵥ u a) 3 = _ := hstored 3
  rw [matmulExternal, if_neg (by omega), if_neg (by omega), if_neg (by omega), if_pos hmem,
    matmulM4_eq hT, ok_bind, h0, ok_bind, h1, ok_bind, h2, ok_bind, h3, ok_bind,
    length_blockState]
  refine foldlM_range_update List.ofFn
    (fun i x => x + ∑ c, (M4 F *ᵥ u c) (finProdFinEquiv.symm i).2) (fun w i => ?_) _
  have hlist : ∀ s : Fin 4 → F, (index [s 0, s 1, s 2, s 3] (i.val % 4) : Panics F) =
      .ok (s (finProdFinEquiv.symm i).2) := fun s =>
    index_ofFn (v := s) (Nat.mod_lt _ (by norm_num))
  rw [hlist fun b => ∑ c, (M4 F *ᵥ u c) b, ok_bind, modifyIndex_ofFn i.isLt]

/-- The product with the matrix of blocks. -/
theorem blockM4_mulVec (v : Fin (k * 4) → F) : List.ofFn (blockM4 F k *ᵥ v) =
    blockState fun a b => (M4 F *ᵥ fun d => v (finProdFinEquiv (a, d))) b +
      ∑ c, (M4 F *ᵥ fun d => v (finProdFinEquiv (c, d))) b := by
  rw [blockM4, reindex_apply, submatrix_mulVec_equiv, blockState]
  refine congrArg List.ofFn (funext fun i => ?_)
  exact blockCirculant_mulVec (M4 F) (fun a b => v (finProdFinEquiv (a, b))) _ _

end Blocks

/-! ### The linear layers

The sizes two and three have layers of their own in the code, and the size four has one block only.
What is left is made of two blocks or more. -/

/-- The state sizes that there are matrices for. -/
def stateSizes : List ℕ := [2, 3, 4, 8, 12, 16, 20, 24]

theorem mem_stateSizes {t : ℕ} : t ∈ stateSizes ↔
    t = 2 ∨ t = 3 ∨ t = 4 ∨ t = 8 ∨ t = 12 ∨ t = 16 ∨ t = 20 ∨ t = 24 := by
  simp only [stateSizes, List.mem_cons, List.not_mem_nil, or_false]

section Layers

variable {F : Type} [Field F] {P : PoseidonParams F}

theorem matmulExternal_two (hT : P.T = 2) (v : Fin 2 → F) :
    P.matmulExternal (List.ofFn v) = .ok (List.ofFn (externalMatrix F 2 *ᵥ v)) := by
  rw [matmulExternal, if_pos hT, index_ofFn (by norm_num), ok_bind, index_ofFn (by norm_num),
    ok_bind]
  dsimp only
  rw [modifyIndex_ofFn (by norm_num), ok_bind, modifyIndex_ofFn (by norm_num)]
  refine congrArg (fun w => Except.ok (List.ofFn w)) (funext fun i => ?_)
  fin_cases i <;> simp [externalMatrix, mulVec, dotProduct, circulant] <;> ring

theorem matmulExternal_three (hT : P.T = 3) (v : Fin 3 → F) :
    P.matmulExternal (List.ofFn v) = .ok (List.ofFn (externalMatrix F 3 *ᵥ v)) := by
  rw [matmulExternal, if_neg (by omega), if_pos hT, index_ofFn (by norm_num), ok_bind,
    index_ofFn (by norm_num), ok_bind, index_ofFn (by norm_num), ok_bind]
  dsimp only
  rw [modifyIndex_ofFn (by norm_num), ok_bind, modifyIndex_ofFn (by norm_num), ok_bind,
    modifyIndex_ofFn (by norm_num)]
  refine congrArg (fun w => Except.ok (List.ofFn w)) (funext fun i => ?_)
  fin_cases i <;> simp [externalMatrix, mulVec, dotProduct, circulant, Fin.sum_univ_three] <;> ring

/-- **The external layer** is the product with the matrix. -/
theorem matmulExternal_eq (P : PoseidonParams F) (hT : P.T ∈ stateSizes) (v : Fin P.T → F) :
    P.matmulExternal (List.ofFn v) = .ok (List.ofFn (externalMatrix F P.T *ᵥ v)) := by
  have hblocks : ∀ (k : ℕ) (Q : PoseidonParams F) (w : Fin (k * 4) → F), Q.T = k * 4 →
      Q.T ∈ [8, 12, 16, 20, 24] →
      Q.matmulExternal (List.ofFn w) = .ok (List.ofFn (blockM4 F k *ᵥ w)) := by
    intro k Q w hQ hmem
    rw [ofFn_eq_blockState, matmulExternal_blockState hQ hmem, blockM4_mulVec]
  have hfour : ∀ (Q : PoseidonParams F) (w : Fin 4 → F), Q.T = 1 * 4 →
      Q.matmulExternal (List.ofFn w) = .ok (List.ofFn (M4 F *ᵥ w)) := by
    intro Q w hQ
    rw [matmulExternal, if_neg (by omega), if_neg (by omega), if_pos hQ]
    exact (congrArg Q.matmulM4 (ofFn_eq_blockState (k := 1) w)).trans
      ((matmulM4_eq hQ _).trans (by rfl))
  obtain ⟨T, D, capacity, roundsF, roundsP, diag, constants⟩ := P
  rcases mem_stateSizes.mp hT with rfl | rfl | rfl | rfl | rfl | rfl | rfl | rfl
  · exact matmulExternal_two rfl v
  · exact matmulExternal_three rfl v
  · exact hfour _ v rfl
  · exact hblocks 2 _ v rfl (by simp)
  · exact hblocks 3 _ v rfl (by simp)
  · exact hblocks 4 _ v rfl (by simp)
  · exact hblocks 5 _ v rfl (by simp)
  · exact hblocks 6 _ v rfl (by simp)

theorem internalMatrix_mulVec (P : PoseidonParams F) (v : Fin P.T → F) (i : Fin P.T) :
    (P.internalMatrix *ᵥ v) i = v i * internalDiagonal P.MAT_INTERNAL_DIAG_M_1 P.T i + ∑ j, v j :=
  ones_mulVec _ v i

theorem matmulInternal_two (hT : P.T = 2) (v : Fin 2 → F) : P.matmulInternal (List.ofFn v) =
    .ok (List.ofFn fun i => v i * (![1, 2] : Fin 2 → F) i + ∑ j, v j) := by
  rw [matmulInternal, if_pos hT, index_ofFn (by norm_num), ok_bind, index_ofFn (by norm_num),
    ok_bind]
  dsimp only
  rw [modifyIndex_ofFn (by norm_num), ok_bind, modifyIndex_ofFn (by norm_num)]
  refine congrArg (fun w => Except.ok (List.ofFn w)) (funext fun i => ?_)
  fin_cases i
  · simp
  · simp [double_eq]
    ring

theorem matmulInternal_three (hT : P.T = 3) (v : Fin 3 → F) : P.matmulInternal (List.ofFn v) =
    .ok (List.ofFn fun i => v i * (![1, 1, 2] : Fin 3 → F) i + ∑ j, v j) := by
  rw [matmulInternal, if_neg (by omega), if_pos hT, index_ofFn (by norm_num), ok_bind,
    index_ofFn (by norm_num), ok_bind, index_ofFn (by norm_num), ok_bind]
  dsimp only
  rw [modifyIndex_ofFn (by norm_num), ok_bind, modifyIndex_ofFn (by norm_num), ok_bind,
    modifyIndex_ofFn (by norm_num)]
  refine congrArg (fun w => Except.ok (List.ofFn w)) (funext fun i => ?_)
  fin_cases i
  · simp [Fin.sum_univ_three]
  · simp [Fin.sum_univ_three]
  · simp [double_eq, Fin.sum_univ_three]
    ring

/-- Larger states, with the diagonal of the parameters. -/
theorem matmulInternal_large (hmem : P.T ∈ [4, 8, 12, 16, 20, 24])
    (hdiag : P.T ≤ P.MAT_INTERNAL_DIAG_M_1.length) (v : Fin P.T → F) :
    P.matmulInternal (List.ofFn v) =
      .ok (List.ofFn fun i => v i * P.MAT_INTERNAL_DIAG_M_1.getD i 0 + ∑ j, v j) := by
  have hlarge : 4 ≤ P.T := by
    simp only [List.mem_cons, List.not_mem_nil, or_false] at hmem
    omega
  rw [matmulInternal, if_neg (by omega), if_neg (by omega), if_pos hmem, List.length_ofFn,
    List.sum_ofFn]
  refine foldlM_range_update List.ofFn
    (fun i x => x * P.MAT_INTERNAL_DIAG_M_1.getD i 0 + ∑ j, v j) (fun w i => ?_) v
  have hlt := i.isLt.trans_le hdiag
  rw [index_eq_ok.mpr (List.getElem?_eq_getElem hlt), ok_bind, modifyIndex_ofFn i.isLt,
    List.getD_eq_getElem _ _ hlt]

/-- **The internal layer** is the product with the matrix. -/
theorem matmulInternal_eq (P : PoseidonParams F) (hT : P.T ∈ stateSizes)
    (hdiag : 4 ≤ P.T → P.T ≤ P.MAT_INTERNAL_DIAG_M_1.length) (v : Fin P.T → F) :
    P.matmulInternal (List.ofFn v) = .ok (List.ofFn (P.internalMatrix *ᵥ v)) := by
  have hmul : P.internalMatrix *ᵥ v = fun i =>
      v i * internalDiagonal P.MAT_INTERNAL_DIAG_M_1 P.T i + ∑ j, v j :=
    funext (P.internalMatrix_mulVec v)
  rw [hmul]
  obtain ⟨T, D, capacity, roundsF, roundsP, diag, constants⟩ := P
  rcases mem_stateSizes.mp hT with rfl | rfl | rfl | rfl | rfl | rfl | rfl | rfl
  · exact matmulInternal_two rfl v
  · exact matmulInternal_three rfl v
  all_goals exact matmulInternal_large (by simp) (hdiag (by norm_num)) v

end Layers

/-! ### Bijections of states -/

/-- On states of size `n` the function is a bijection, or it panics on all of them. -/
def Bijects {F : Type} (n : ℕ) (f : List F → Panics (List F)) : Prop :=
  (∃ g : (Fin n → F) → Fin n → F, Function.Bijective g ∧
    ∀ v, f (List.ofFn v) = .ok (List.ofFn (g v))) ∨
  ∃ msg, ∀ v : Fin n → F, f (List.ofFn v) = .panic msg

section Bijects

variable {F α β : Type} {n : ℕ} {f g : List F → Panics (List F)}

theorem Bijects.bind (hf : Bijects n f) (hg : Bijects n g) :
    Bijects n fun state => f state >>= g := by
  rcases hf with ⟨p, hp, hf⟩ | ⟨msg, hf⟩
  · rcases hg with ⟨q, hq, hg⟩ | ⟨msg, hg⟩
    · exact Or.inl ⟨q ∘ p, hq.comp hp, fun v => by simp only [hf, ok_bind, hg, Function.comp]⟩
    · exact Or.inr ⟨msg, fun v => by simp only [hf, ok_bind, hg]⟩
  · exact Or.inr ⟨msg, fun v => by simp only [hf, panic_bind]⟩

theorem Bijects.ofFn {h : List F → List F} {p : (Fin n → F) → Fin n → F}
    (hp : Function.Bijective p) (hh : ∀ v, h (List.ofFn v) = List.ofFn (p v)) :
    Bijects n fun state => pure (h state) :=
  Or.inl ⟨p, hp, fun v => congrArg Except.ok (hh v)⟩

/-- What is read does not depend on the state. -/
theorem Bijects.const {k : α → List F → Panics (List F)} (x : Panics α)
    (hk : ∀ a, Bijects n (k a)) : Bijects n fun state => x >>= fun a => k a state := by
  cases x with
  | ok a => exact hk a
  | error e =>
    cases e with
    | err e => exact e.elim
    | panic msg => exact Or.inr ⟨msg, fun _ => rfl⟩

theorem Bijects.foldlM {body : List F → β → Panics (List F)} (h : ∀ b, Bijects n (body · b))
    (l : List β) : Bijects n fun state => l.foldlM body state := by
  induction l with
  | nil => exact Or.inl ⟨id, Function.bijective_id, fun _ => rfl⟩
  | cons b l ih =>
    simp only [List.foldlM_cons]
    exact (h b).bind ih

theorem Bijects.modifyIndex {f : F → F} (hf : Function.Bijective f) (hn : 0 < n) :
    Bijects n fun state => ContractsStylus.modifyIndex state 0 f :=
  Or.inl ⟨_, update_bijective hf ⟨0, hn⟩, fun _ => modifyIndex_ofFn hn f⟩

end Bijects

/-! ### The permutation -/

section Permute

variable {F : Type} [Field F] {P : PoseidonParams F}

theorem getElem_addRc {state constants : List F} {i : ℕ} (h : i < state.length) :
    (addRc state constants)[i]? = some (state[i] + constants.getD i 0) := by
  induction state generalizing constants i with
  | nil => exact absurd h (Nat.not_lt_zero i)
  | cons a state ih =>
    cases constants with
    | nil => simp [addRc]
    | cons b constants =>
      cases i with
      | zero => rfl
      | succ i => exact ih (Nat.lt_of_succ_lt_succ h)

theorem addRc_ofFn {n : ℕ} (v : Fin n → F) (constants : List F) :
    addRc (List.ofFn v) constants = List.ofFn (v + fun i : Fin n => constants.getD i 0) := by
  refine List.ext_getElem? fun i => ?_
  by_cases hi : i < n
  · rw [getElem_addRc (by rwa [List.length_ofFn]), List.getElem?_ofFn, dif_pos hi,
      List.getElem_ofFn]
    rfl
  · rw [List.getElem?_eq_none (by rw [length_addRc, List.length_ofFn]; omega),
      List.getElem?_eq_none (by rw [List.length_ofFn]; omega)]

theorem bijects_matmulExternal (hT : P.T ∈ stateSizes) (hM : IsUnit (externalMatrix F P.T)) :
    Bijects P.T P.matmulExternal :=
  Or.inl ⟨_, mulVec_bijective hM, P.matmulExternal_eq hT⟩

theorem bijects_matmulInternal (hT : P.T ∈ stateSizes)
    (hdiag : 4 ≤ P.T → P.T ≤ P.MAT_INTERNAL_DIAG_M_1.length) (hM : IsUnit P.internalMatrix) :
    Bijects P.T P.matmulInternal :=
  Or.inl ⟨_, mulVec_bijective hM, P.matmulInternal_eq hT hdiag⟩

/-- **An external round**: the constants, the powers of all elements, the matrix. -/
theorem bijects_externalRound (hT : P.T ∈ stateSizes) (hM : IsUnit (externalMatrix F P.T))
    (hpow : Function.Bijective fun x : F => x ^ P.D.toNat) (round : ℕ) :
    Bijects P.T (P.externalRound · round) := by
  have hrc : Bijects P.T (P.addRcExternal · round) := .const _ fun constants =>
    .ofFn (Equiv.addRight _).bijective fun v => addRc_ofFn v constants
  rw [← P.powD_eq] at hpow
  have hsbox : Bijects P.T fun state => pure (P.applySboxExternal state) :=
    .ofFn hpow.comp_left fun _ => List.map_ofFn
  exact hrc.bind (hsbox.bind (bijects_matmulExternal hT hM))

/-- **An internal round**: the constant and the power of the first element, the matrix. -/
theorem bijects_internalRound (hT : P.T ∈ stateSizes)
    (hdiag : 4 ≤ P.T → P.T ≤ P.MAT_INTERNAL_DIAG_M_1.length) (hM : IsUnit P.internalMatrix)
    (hpow : Function.Bijective fun x : F => x ^ P.D.toNat) (round : ℕ) :
    Bijects P.T (P.internalRound · round) := by
  have hsizes := mem_stateSizes.mp hT
  have hpos : 0 < P.T := by omega
  rw [← P.powD_eq] at hpow
  have hrc : Bijects P.T (P.addRcInternal · round) := .const _ fun constants =>
    .const _ fun c => .modifyIndex (Equiv.addRight c).bijective hpos
  have hsbox : Bijects P.T P.applySboxInternal := .modifyIndex hpow hpos
  exact hrc.bind (hsbox.bind (bijects_matmulInternal hT hdiag hM))

/-- **The permutation**, for any number of rounds and any constants. -/
theorem bijects_permute (hT : P.T ∈ stateSizes)
    (hdiag : 4 ≤ P.T → P.T ≤ P.MAT_INTERNAL_DIAG_M_1.length)
    (hE : IsUnit (externalMatrix F P.T)) (hI : IsUnit P.internalMatrix)
    (hpow : Function.Bijective fun x : F => x ^ P.D.toNat) : Bijects P.T P.permute :=
  (bijects_matmulExternal hT hE).bind
    ((Bijects.foldlM (bijects_externalRound hT hE hpow) _).bind
      ((Bijects.foldlM (bijects_internalRound hT hdiag hI hpow) _).bind
        (Bijects.foldlM (bijects_externalRound hT hE hpow) _)))

/-- With parameters that it is made for, it does not panic. -/
theorem Supported.exists_bijective (h : P.Supported) (hb : Bijects P.T P.permute) :
    ∃ g : (Fin P.T → F) → Fin P.T → F, Function.Bijective g ∧
      ∀ v, P.permute (List.ofFn v) = .ok (List.ofFn (g v)) := by
  rcases hb with hb | ⟨msg, hpanic⟩
  · exact hb
  · obtain ⟨state, hstate⟩ := (keeps_permute (List.ofFn (0 : Fin P.T → F)) List.length_ofFn).2 h
    exact absurd ((hpanic 0).symm.trans hstate) panic_ne_ok

end Permute

/-! ### Prime fields -/

section Prime

variable {N : ℕ} {Q : FpParams N}

instance instFiniteElement : Finite (Fp.Element Q) :=
  have : NeZero Q.p := ⟨Q.p_pos.ne'⟩
  Finite.of_equiv _ (Fp.Element.equivZMod (P := Q)).symm.toEquiv

theorem card_element : Nat.card (Fp.Element Q) = Q.p :=
  (Nat.card_congr (Fp.Element.equivZMod (P := Q)).toEquiv).trans (Nat.card_zmod Q.p)

theorem element_pow_bijective [Fact Q.p.Prime] {d : ℕ} (hd : d.Coprime (Q.p - 1)) :
    Function.Bijective fun x : Fp.Element Q => x ^ d := by
  have hodd := Q.odd
  have hlt := Q.one_lt
  refine pow_bijective ?_ (by rwa [card_element])
  rw [card_element]
  change 2 < Q.MODULUS.toNat
  omega

end Prime

/-- **Poseidon2.** Over every field and on every state, the linear layers are the products with the
matrices. So over a prime field, for any number of rounds and any constants, the permutation is a
bijection of states when the power is coprime to the order of the units and the matrices are
invertible. It panics, on all states, only when there is no constant where one is read. -/
theorem linearLayers_permute :
    (∀ (F : Type) [Field F] (P : PoseidonParams F), P.T ∈ stateSizes → ∀ v : Fin P.T → F,
      P.matmulExternal (List.ofFn v) = .ok (List.ofFn (externalMatrix F P.T *ᵥ v)) ∧
      ((4 ≤ P.T → P.T ≤ P.MAT_INTERNAL_DIAG_M_1.length) →
        P.matmulInternal (List.ofFn v) = .ok (List.ofFn (P.internalMatrix *ᵥ v)))) ∧
    ∀ (N : ℕ) (Q : FpParams N) [Fact Q.p.Prime] (P : PoseidonParams (Fp.Element Q)),
      P.T ∈ stateSizes → (4 ≤ P.T → P.T ≤ P.MAT_INTERNAL_DIAG_M_1.length) →
      P.D.toNat.Coprime (Q.p - 1) → IsUnit (externalMatrix (Fp.Element Q) P.T) →
      IsUnit P.internalMatrix →
      ((∃ g : (Fin P.T → Fp.Element Q) → Fin P.T → Fp.Element Q, Function.Bijective g ∧
          ∀ v, P.permute (List.ofFn v) = .ok (List.ofFn (g v))) ∨
        ∃ msg, ∀ v : Fin P.T → Fp.Element Q, P.permute (List.ofFn v) = .panic msg) ∧
      (P.Supported → ∃ g : (Fin P.T → Fp.Element Q) → Fin P.T → Fp.Element Q,
        Function.Bijective g ∧ ∀ v, P.permute (List.ofFn v) = .ok (List.ofFn (g v))) := by
  refine ⟨fun F _ P hT v => ⟨P.matmulExternal_eq hT v, fun hdiag =>
    P.matmulInternal_eq hT hdiag v⟩, fun N Q _ P hT hdiag hd hE hI => ?_⟩
  have hb := bijects_permute hT hdiag hE hI (element_pow_bijective hd)
  exact ⟨hb, fun h => h.exists_bijective hb⟩

/-- Three rounds on two elements modulo 11, with cubes. -/
theorem linearLayers_permute_eleven : ∃ (Q : FpParams 1) (_ : Fact Q.p.Prime)
    (P : PoseidonParams (Fp.Element Q)), Q.p = 11 ∧ P.T = 2 ∧ P.D = 3 ∧ P.rounds = 3 ∧
      ∃ g : (Fin P.T → Fp.Element Q) → Fin P.T → Fp.Element Q, Function.Bijective g ∧
        ∀ v, P.permute (List.ofFn v) = .ok (List.ofFn (g v)) := by
  let Q : FpParams 1 := ⟨⟨#v[11]⟩, by decide, by decide⟩
  have hp : Q.p = 11 := by decide
  have hprime : Fact Q.p.Prime := ⟨by rw [hp]; norm_num⟩
  let P : PoseidonParams (Fp.Element Q) := ⟨2, 3, 1, 2, 1, [1, 2], [[1, 2], [3], [4, 5]]⟩
  have hunit : ∀ m : ℕ, 0 < m → m < 11 → IsUnit (m : Fp.Element Q) := by
    intro m hpos hlt
    refine isUnit_iff_ne_zero.mpr fun hzero => ?_
    have hcast := congrArg Fp.Element.equivZMod hzero
    rw [map_natCast, map_zero, ZMod.natCast_eq_zero_iff, hp] at hcast
    exact absurd (Nat.le_of_dvd hpos hcast) (by omega)
  have hE : IsUnit (externalMatrix (Fp.Element Q) P.T) := by
    have hdet : (externalMatrix (Fp.Element Q) 2).det = (3 : ℕ) := by
      rw [det_fin_two]
      simp only [externalMatrix, circulant_apply]
      change (2 : Fp.Element Q) * 2 - 1 * 1 = (3 : ℕ)
      norm_num
    exact (isUnit_iff_isUnit_det _).mpr (hdet ▸ hunit 3 (by norm_num) (by norm_num))
  have hI : IsUnit P.internalMatrix := by
    have hdet : P.internalMatrix.det = (5 : ℕ) := by
      refine (det_fin_two _).trans ?_
      norm_num [internalMatrix, internalDiagonal, P]
    exact (isUnit_iff_isUnit_det _).mpr (hdet ▸ hunit 5 (by norm_num) (by norm_num))
  have hsupported : P.Supported := ⟨by simp [P], by simp [P], by simp [P, rounds], by simp [P]⟩
  have hcoprime : P.D.toNat.Coprime (Q.p - 1) := by
    rw [hp]
    exact (by decide : Nat.Coprime 3 10)
  obtain ⟨-, hpermute⟩ := linearLayers_permute
  exact ⟨Q, hprime, P, hp, rfl, rfl, rfl, (hpermute 1 Q P (by simp [P, stateSizes])
    (fun h => absurd h (by simp [P])) hcoprime hE hI).2 hsupported⟩

end PoseidonParams

end ContractsStylus
