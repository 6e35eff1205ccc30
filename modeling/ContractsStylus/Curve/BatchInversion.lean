import ContractsStylus.Curve.ShortWeierstrass
import ContractsStylus.Curve.TwistedEdwards
import Mathlib.Algebra.BigOperators.Ring.List
import Mathlib.Tactic.FieldSimp

/-!
# Batch inversion

Many elements of a field are inverted with one inversion, by Montgomery's trick: the first pass
goes through the elements and keeps all partial products, the second one goes back and peels off
one element after another from the inverse of the whole product. Both passes skip the elements
that are zero, each on its own, and the second one ends with the shorter of the two sequences that
it reads. That these end together is a part of what is proved.

## Two passes

The second pass consumes two sequences from their ends: the elements, and the partial products with
the last one dropped and a one added. Elements that are zero have no partial product, so the two are
not of one length and are aligned only through what is skipped. The proof is on the list of elements
and says at every point which partial product is next and what has been peeled off by then.

## Points

For Jacobian coordinates a zero stands for the point at infinity, and skipping it is what the source
wants. For extended coordinates it stands for nothing, and the source panics before it inverts; the
points that are converted are those without a zero.

## Main definitions

* `batchInversionAndMul`, `batchInversion` — the two passes
* `Sw.normalizeBatch`, `Te.normalizeBatch` — points converted to affine coordinates all at once

## Main results

* `batchInversionAndMul_eq` — every element that is not zero is inverted and scaled
* `normalizeBatch_eq` — the points converted at once are the points converted one by one
-/

namespace ContractsStylus

variable {F : Type} [Field F] [DecidableEq F]

/-- `Field::inverse`. -/
def inverse (a : F) : Option F := if a = 0 then none else some a⁻¹

/-- First pass: the product of the elements that are not zero, and the products up to each. -/
def productPass (v : List F) : F × List F :=
  (v.filter (· ≠ 0)).foldl (fun s f => (s.1 * f, s.2 ++ [s.1 * f])) (1, [])

/-- Second pass, over the elements and the partial products, both from the last one on. -/
def inversePass : List F → List F → F → List F
  | [], _, _ => []
  | f :: v, prod, tmp =>
    -- ignore normalized elements
    if f = 0 then f :: inversePass v prod tmp
    else match prod with
      | [] => f :: v
      | s :: prod => tmp * s :: inversePass v prod (tmp * f)

/-- Computes `coeff * v_i^(-1)` for each non-zero element. -/
def batchInversionAndMul (v : List F) (coeff : F) : Option (List F) := do
  let first := productPass v
  let tmp ← inverse first.1
  -- multiply product by coeff, so coeff will scale all inverses
  let tmp := tmp * coeff
  -- skip the last product, fill in one for the last term
  return (inversePass v.reverse (first.2.reverse.drop 1 ++ [1]) tmp).reverse

/-- Computes inverses of non-zero elements. -/
def batchInversion (v : List F) : Option (List F) := batchInversionAndMul v 1

/-- Normalizes a slice of points in Jacobian coordinates. -/
def Sw.normalizeBatch (v : List (Sw.Projective F)) : Option (List (Sw.Affine F)) := do
  let zs ← batchInversion (v.map fun g => g.z)
  return (v.zip zs).map fun p =>
    if p.1.isZero then Sw.Affine.identity
    else
      let z2 := square p.2
      let x := p.1.x * z2
      let y := p.1.y * z2 * p.2
      Sw.Affine.newUnchecked x y

/-- Normalizes a slice of points in extended coordinates, which panics if a `Z` is zero. -/
def Te.normalizeBatch (v : List (Te.Projective F)) : Option (List (Te.Affine F)) :=
  if v.any fun g => g.z = 0 then none
  else do
    let zs ← batchInversion (v.map fun g => g.z)
    return (v.zip zs).map fun p =>
      if p.1.isZero then Te.Affine.zero
      else
        let x := p.1.x * p.2
        let y := p.1.y * p.2
        Te.Affine.newUnchecked x y

/-! ### Partial products

Both passes are described on the elements that are not zero. What the second pass carries along is
the inverse of the product of those that it has not reached, times the coefficient. -/

/-- The products of the proper initial parts of a list, the longest first. -/
def initialProducts (u : List F) : List F :=
  (u.foldl (fun s f => (s.1 * f, s.1 :: s.2)) ((1 : F), ([] : List F))).2

omit [DecidableEq F] in
theorem foldl_initialProducts (u : List F) :
    u.foldl (fun s f => (s.1 * f, s.1 :: s.2)) ((1 : F), ([] : List F)) =
      (u.prod, initialProducts u) := by
  refine Prod.ext ?_ rfl
  induction u using List.reverseRecOn with
  | nil => rfl
  | append_singleton u f ih =>
    rw [List.foldl_concat, List.prod_append, List.prod_singleton]
    exact congrArg (· * f) ih

omit [DecidableEq F] in
theorem initialProducts_concat (u : List F) (f : F) :
    initialProducts (u ++ [f]) = u.prod :: initialProducts u := by
  rw [initialProducts, List.foldl_concat, foldl_initialProducts]

/-- **The first pass** leaves the whole product, and behind it those of the initial parts. -/
theorem productPass_eq (v : List F) : (productPass v).1 = (v.filter (· ≠ 0)).prod ∧
    (productPass v).2.reverse ++ [1] =
      (v.filter (· ≠ 0)).prod :: initialProducts (v.filter (· ≠ 0)) := by
  rw [productPass]
  generalize v.filter (· ≠ 0) = u
  induction u using List.reverseRecOn with
  | nil => exact ⟨rfl, rfl⟩
  | append_singleton u f ih =>
    obtain ⟨hprod, hlist⟩ := ih
    rw [List.foldl_concat, hprod, List.prod_append, List.prod_singleton, initialProducts_concat,
      List.reverse_append, List.reverse_singleton, List.append_assoc, hlist]
    exact ⟨rfl, rfl⟩

/-- What the second pass reads starts with the products of the initial parts. -/
theorem exists_initialProducts (v : List F) : ∃ rest,
    (productPass v).2.reverse.drop 1 ++ [1] = initialProducts (v.filter (· ≠ 0)) ++ rest := by
  have hlist := (productPass_eq v).2
  rcases hprod : (productPass v).2.reverse with _ | ⟨p, prod⟩
  · rw [hprod] at hlist
    obtain ⟨-, hnil⟩ := List.cons.inj hlist
    exact ⟨[1], by rw [← hnil]; rfl⟩
  · rw [hprod] at hlist
    obtain ⟨-, htail⟩ := List.cons.inj hlist
    exact ⟨[], by rw [← htail, List.append_nil]; rfl⟩

theorem prod_filter_ne_zero (v : List F) : (v.filter (· ≠ 0)).prod ≠ 0 :=
  List.prod_ne_zero (by simp)

theorem inversePass_zero (v prod : List F) (tmp : F) :
    inversePass (0 :: v) prod tmp = 0 :: inversePass v prod tmp := by
  simp [inversePass]

theorem inversePass_of_ne {f : F} (hf : f ≠ 0) (v prod : List F) (s tmp : F) :
    inversePass (f :: v) (s :: prod) tmp = tmp * s :: inversePass v prod (tmp * f) := by
  simp [inversePass, hf]

/-- **The second pass** inverts each element that is not zero. -/
theorem inversePass_eq (coeff : F) (v rest : List F) :
    inversePass v.reverse (initialProducts (v.filter (· ≠ 0)) ++ rest)
        ((v.filter (· ≠ 0)).prod⁻¹ * coeff) =
      v.reverse.map fun f => if f = 0 then 0 else coeff * f⁻¹ := by
  induction v using List.reverseRecOn with
  | nil => rfl
  | append_singleton v f ih =>
    rw [List.reverse_append, List.reverse_singleton, List.singleton_append, List.map_cons,
      List.filter_append, List.filter_singleton]
    by_cases hf : f = 0
    · rw [if_pos hf, decide_eq_false (not_not.mpr hf), hf, inversePass_zero]
      simpa using ih
    · have hne := prod_filter_ne_zero v
      have hhead : ((v.filter (· ≠ 0)).prod * f)⁻¹ * coeff * (v.filter (· ≠ 0)).prod =
          coeff * f⁻¹ := by
        field_simp
      have htail : ((v.filter (· ≠ 0)).prod * f)⁻¹ * coeff * f =
          (v.filter (· ≠ 0)).prod⁻¹ * coeff := by
        field_simp
      rw [if_neg hf, decide_eq_true hf, cond_true, initialProducts_concat, List.prod_append,
        List.prod_singleton, List.cons_append, inversePass_of_ne hf, hhead, htail, ih]

/-- **Batch inversion** inverts and scales every element that is not zero, and never panics. -/
theorem batchInversionAndMul_eq (v : List F) (coeff : F) :
    batchInversionAndMul v coeff = some (v.map fun f => if f = 0 then 0 else coeff * f⁻¹) := by
  have hne : (productPass v).1 ≠ 0 := by
    rw [(productPass_eq v).1]
    exact prod_filter_ne_zero v
  obtain ⟨rest, hrest⟩ := exists_initialProducts v
  have hpass := inversePass_eq coeff v rest
  rw [← hrest, ← (productPass_eq v).1] at hpass
  simp only [batchInversionAndMul, inverse, if_neg hne, Option.bind_eq_bind, Option.bind_some,
    hpass, ← List.map_reverse, List.reverse_reverse]
  rfl

/-! ### Normalisation

The inverses are zipped with the points, so each point meets the inverse of its own `Z`. -/

theorem batchInversion_eq (v : List F) :
    batchInversion v = some (v.map fun f => if f = 0 then 0 else f⁻¹) := by
  rw [batchInversion, batchInversionAndMul_eq]
  simp only [one_mul]

/-- Elements zipped with what each of them is mapped to. -/
theorem map_zip_map_map {α β γ δ : Type} (l : List α) (g : α → β) (h : β → γ) (f : α × γ → δ) :
    (l.zip ((l.map g).map h)).map f = l.map fun a => f (a, h (g a)) := by
  rw [List.map_map, List.map_zip_eq_zipWith, List.zipWith_map_right, List.zipWith_self]
  rfl

/-- A loop that stops at the first element with `p`. -/
theorem mapM_ite_none {α β : Type} (p : α → Prop) [DecidablePred p] (f : α → β) (l : List α) :
    (l.mapM fun a => if p a then none else some (f a)) =
      if l.any (fun a => p a) then none else some (l.map f) := by
  induction l with
  | nil => rfl
  | cons a l ih =>
    rw [List.mapM_cons, ih, List.any_cons, List.map_cons]
    by_cases ha : p a
    · simp [ha]
    · by_cases hl : l.any (fun a => p a) <;> simp [ha, hl]

theorem Sw.normalizeBatch_spec (v : List (Sw.Projective F)) :
    Sw.normalizeBatch v = some (v.map Sw.Affine.ofProjective) := by
  rw [Sw.normalizeBatch, batchInversion_eq, Option.bind_eq_bind, Option.bind_some, map_zip_map_map]
  refine congrArg some (List.map_congr_left fun g _ => ?_)
  rw [Sw.Affine.ofProjective, Sw.Projective.isZero]
  by_cases hzero : g.z = 0
  · simp [hzero]
  · by_cases hone : g.z = 1
    · simp [hone, square]
    · simp [hzero, hone]

/-- A point is converted when its `Z` is not zero. A `Z` of one is no special case, and the
identity has a `Z` that is not zero. -/
theorem Te.ofProjective_eq (g : Te.Projective F) : Te.Affine.ofProjective g =
    if g.z = 0 then none
    else some (if g.isZero then Te.Affine.zero
      else Te.Affine.newUnchecked (g.x * g.z⁻¹) (g.y * g.z⁻¹)) := by
  rw [Te.Affine.ofProjective]
  by_cases hzero : g.z = 0
  · have hid : g.isZero = false := by
      by_cases hy : g.y = 0 <;> simp [Te.Projective.isZero, hzero, hy]
    simp [hzero, hid]
  · by_cases hid : g.isZero = true
    · simp [hzero, hid]
    · by_cases hone : g.z = 1
      · simp [hone, hid]
      · simp [hzero, hone, hid]

theorem Te.normalizeBatch_spec (v : List (Te.Projective F)) :
    Te.normalizeBatch v = v.mapM Te.Affine.ofProjective := by
  rw [funext Te.ofProjective_eq, mapM_ite_none, Te.normalizeBatch]
  split
  · rfl
  · rename_i hany
    rw [batchInversion_eq, Option.bind_eq_bind, Option.bind_some, map_zip_map_map]
    refine congrArg some (List.map_congr_left fun g hg => ?_)
    have hz : g.z ≠ 0 := fun hz => hany (List.any_eq_true.mpr ⟨g, hg, decide_eq_true hz⟩)
    simp only [if_neg hz]

/-- **Batch inversion and normalisation.** Every element that is not zero is replaced by its scaled
inverse, and zeros stay; so points that are converted to affine coordinates at once are the points
converted one by one, in short Weierstrass form with points at infinity at any places. In twisted
Edwards form both ways panic when there is a point whose `Z` is zero, which no point of the curve
has, and agree otherwise. -/
theorem normalizeBatch_eq (v : List F) (coeff : F) (sw : List (Sw.Projective F))
    (te : List (Te.Projective F)) :
    batchInversionAndMul v coeff = some (v.map fun f => if f = 0 then 0 else coeff * f⁻¹) ∧
    Sw.normalizeBatch sw = some (sw.map Sw.Affine.ofProjective) ∧
    Te.normalizeBatch te = te.mapM Te.Affine.ofProjective :=
  ⟨batchInversionAndMul_eq v coeff, Sw.normalizeBatch_spec sw, Te.normalizeBatch_spec te⟩

end ContractsStylus
