import ContractsStylus.Crypto.UintShifts
import ContractsStylus.Curve.ScalarMul
import ContractsStylus.Curve.Starknet
import Mathlib.Algebra.BigOperators.Fin

/-!
# The Pedersen hash

Each input is split into its low bits and its high bits, and the hash is the `x`-coordinate of a
combination of five points: one that is fixed, and the four parts as multiples of the others. Equal
`x`-coordinates are those of equal or of opposite points, so a collision is a relation between the
five points, with coefficients that are read off the inputs.

## Relations

A relation between points with known coefficients that are not all zero is what a collision gives
away. Finding one is believed to be hard, but nothing of that kind can be proved, and nothing is:
the result is the relation, with coefficients that are bounded and read off the inputs.

The two points of a collision may be opposite and not equal, since the hash has only one coordinate.
The fixed point then occurs twice, and the relation is one all the same.

## Main definitions

* `PedersenParams` — the points and the split
* `Pedersen.hash` — the hash
* `Pedersen.coefficients` — the multiples of the five points

## Main results

* `Pedersen.hash_eq` — the hash is the `x`-coordinate of the combination
* `Pedersen.exists_relation` — a collision is a relation
* `Pedersen.hash_collision` — both, with the constants of Starknet
-/

namespace ContractsStylus

/-- Pedersen hash parameters. -/
structure PedersenParams {N : ℕ} (Q : FpParams N) where
  /-- Shift point. -/
  P_0 : Sw.Affine (Fp.Element Q)
  P_1 : Sw.Affine (Fp.Element Q)
  P_2 : Sw.Affine (Fp.Element Q)
  P_3 : Sw.Affine (Fp.Element Q)
  P_4 : Sw.Affine (Fp.Element Q)
  LOW_PART_BITS : ℕ
  LOW_PART_MASK : Uint N

/-- `AffineRepr::x`. -/
def AffineRepr.x {F : Type} (self : Sw.Affine F) : Option F := self.xy.map Prod.fst

namespace Pedersen

variable {N : ℕ} {Q : FpParams N}

section Hash

variable [Fact Q.p.Prime]

/-- The multiples of two points by the parts of an input; `none` where the shift panics. -/
def processSingleElement (params : PedersenParams Q) (P : SWCurveConfig (Fp.Element Q))
    (element : Fp.Element Q) (p1 p2 : Sw.Affine (Fp.Element Q)) :
    Option (Sw.Projective (Fp.Element Q)) := do
  let element := element.intoBigint
  let highNibble ← element.shr params.LOW_PART_BITS
  let lowPart := element.bitand params.LOW_PART_MASK
  pure ((P.mulAffine p1 lowPart.bitBeIter).addAssign P (P.mulAffine p2 highNibble.bitBeIter))

/-- The hash of `x` and `y`, which is `None` at infinity; `none` where a shift panics. -/
def hash (params : PedersenParams Q) (P : SWCurveConfig (Fp.Element Q)) (x y : Fp.Element Q) :
    Option (Option (Fp.Element Q)) := do
  let px ← processSingleElement params P x params.P_1 params.P_2
  let py ← processSingleElement params P y params.P_3 params.P_4
  let hash := ((Sw.Projective.ofAffine params.P_0).addAssign P px).addAssign P py
  pure (AffineRepr.x (Sw.Affine.ofProjective hash))

end Hash

/-! ### The parts of an input

The split is at a bit, so the two parts are a remainder and a quotient, and both inputs can be read
off the five coefficients. -/

/-- The low bits of an input. -/
def lowPart (b : ℕ) (v : Fp.Element Q) : ℕ := v.intoBigint.toNat % 2 ^ b

/-- The high bits of an input. -/
def highPart (b : ℕ) (v : Fp.Element Q) : ℕ := v.intoBigint.toNat / 2 ^ b

/-- The multiples of the five points in the hash of `x` and `y`. -/
def coefficients (b : ℕ) (x y : Fp.Element Q) : Fin 5 → ℤ :=
  ![1, lowPart b x, highPart b x, lowPart b y, highPart b y]

/-- **The parts determine the input.** -/
theorem coefficients_injective {b : ℕ} {x y x' y' : Fp.Element Q}
    (h : coefficients b x y = coefficients b x' y') : x = x' ∧ y = y' := by
  have hparts : ∀ v v' : Fp.Element Q, lowPart b v = lowPart b v' → highPart b v = highPart b v' →
      v = v' := by
    intro v v' hlow hhigh
    refine Fp.Element.toZMod_injective (congrArg (Nat.cast : ℕ → ZMod Q.p) ?_)
    rw [← Nat.mod_add_div v.intoBigint.toNat (2 ^ b), ← Nat.mod_add_div v'.intoBigint.toNat (2 ^ b)]
    exact congrArg₂ (fun l h => l + 2 ^ b * h) hlow hhigh
  have hxl : (lowPart b x : ℤ) = lowPart b x' := congrFun h 1
  have hxh : (highPart b x : ℤ) = highPart b x' := congrFun h 2
  have hyl : (lowPart b y : ℤ) = lowPart b y' := congrFun h 3
  have hyh : (highPart b y : ℤ) = highPart b y' := congrFun h 4
  exact ⟨hparts x x' (by exact_mod_cast hxl) (by exact_mod_cast hxh),
    hparts y y' (by exact_mod_cast hyl) (by exact_mod_cast hyh)⟩

/-- The coefficients are small. -/
theorem coefficients_le {b m : ℕ} (hp : Q.p ≤ 2 ^ b * (m + 1)) (x y : Fp.Element Q) (i : Fin 5) :
    0 ≤ coefficients b x y i ∧
      coefficients b x y i ≤ (![1, 2 ^ b, m, 2 ^ b, m] : Fin 5 → ℤ) i := by
  have hlow : ∀ v : Fp.Element Q, (lowPart b v : ℤ) ≤ 2 ^ b := fun v => by
    exact_mod_cast (Nat.mod_lt _ (Nat.two_pow_pos b)).le
  have hhigh : ∀ v : Fp.Element Q, (highPart b v : ℤ) ≤ m := fun v => by
    exact_mod_cast Nat.le_of_lt_succ (Nat.div_lt_of_lt_mul (v.intoBigint_lt.trans_le hp))
  fin_cases i
  · exact ⟨zero_le_one, le_rfl⟩
  · exact ⟨Int.natCast_nonneg _, hlow x⟩
  · exact ⟨Int.natCast_nonneg _, hhigh x⟩
  · exact ⟨Int.natCast_nonneg _, hlow y⟩
  · exact ⟨Int.natCast_nonneg _, hhigh y⟩

/-! ### Coordinates -/

/-- The `x`-coordinate of a point. -/
def xCoordinate {F : Type} [Field F] {P : SWCurveConfig F} : P.Point → Option F
  | .zero => none
  | .some x _ _ => some x

section Coordinates

variable {F : Type} [Field F] {P : SWCurveConfig F} {A B : P.Point}

theorem xCoordinate_eq_none : xCoordinate A = none ↔ A = 0 := by
  cases A with
  | zero => exact iff_of_true rfl rfl
  | some x y hxy =>
    exact iff_of_false (Option.some_ne_none x) (WeierstrassCurve.Affine.Point.some_ne_zero hxy)

theorem x_of_represents {a : Sw.Affine F} (h : a.Represents A) :
    AffineRepr.x a = xCoordinate A := by
  cases A with
  | zero =>
    rw [AffineRepr.x, Sw.Affine.xy, (h : a.infinity = true)]
    rfl
  | some x y hxy =>
    obtain ⟨hinf, rfl, -⟩ := h
    rw [AffineRepr.x, Sw.Affine.xy, hinf]
    rfl

/-- **Equal `x`-coordinates** are those of equal or of opposite points. -/
theorem eq_or_eq_neg [DecidableEq F] {h : F} (hA : xCoordinate A = some h)
    (hB : xCoordinate B = some h) : A = B ∨ A = -B := by
  cases A with
  | zero => exact absurd hA.symm (Option.some_ne_none h)
  | some x y hxy =>
    cases B with
    | zero => exact absurd hB.symm (Option.some_ne_none h)
    | some x' y' hxy' =>
      obtain rfl : x = x' := Option.some.inj (hA.trans hB.symm)
      rcases WeierstrassCurve.Affine.Y_eq_of_X_eq hxy.1 hxy'.1 rfl with rfl | rfl
      · exact Or.inl rfl
      · refine Or.inr ?_
        rw [WeierstrassCurve.Affine.Point.neg_some]

end Coordinates

/-! ### The hash

Each part is a multiple of its point by scalar multiplication, and the parts are added to the fixed
point one after the other. `Sound` is what is needed of the constants. -/

variable [Fact Q.p.Prime]

/-- The constants are right: the five points are on the curve, and the mask is that of the low
bits. -/
structure Sound (params : PedersenParams Q) (P : SWCurveConfig (Fp.Element Q))
    (A : Fin 5 → P.Point) : Prop where
  elliptic : P.Elliptic
  P_0 : params.P_0.Represents (A 0)
  P_1 : params.P_1.Represents (A 1)
  P_2 : params.P_2.Represents (A 2)
  P_3 : params.P_3.Represents (A 3)
  P_4 : params.P_4.Represents (A 4)
  shift_lt : params.LOW_PART_BITS < N * 64
  mask : params.LOW_PART_MASK.toNat = 2 ^ params.LOW_PART_BITS - 1

variable {params : PedersenParams Q} {P : SWCurveConfig (Fp.Element Q)} {A : Fin 5 → P.Point}

/-- One input, on the representatives of two points. -/
theorem Sound.exists_processSingleElement (h : Sound params P A)
    {p1 p2 : Sw.Affine (Fp.Element Q)} {A1 A2 : P.Point} (h1 : p1.Represents A1)
    (h2 : p2.Represents A2) (v : Fp.Element Q) :
    ∃ r, processSingleElement params P v p1 p2 = some r ∧ r.Represents
      (lowPart params.LOW_PART_BITS v • A1 + highPart params.LOW_PART_BITS v • A2) := by
  obtain ⟨high, hshr, hhigh⟩ := Uint.exists_shr (a := v.intoBigint) h.shift_lt
  have hlow : (v.intoBigint.bitand params.LOW_PART_MASK).toNat =
      lowPart params.LOW_PART_BITS v := Uint.toNat_bitand_mask h.mask
  have hmul1 := (Sw.law h.elliptic).doubleAndAddAffine h1
    (v.intoBigint.bitand params.LOW_PART_MASK).bitBeIter
  have hmul2 := (Sw.law h.elliptic).doubleAndAddAffine h2 high.bitBeIter
  rw [Uint.ofBitsBe_bitBeIter, hlow] at hmul1
  rw [Uint.ofBitsBe_bitBeIter, hhigh] at hmul2
  refine ⟨_, ?_, hmul1.addAssign h.elliptic hmul2⟩
  rw [processSingleElement, hshr]
  rfl

/-- The five points, as often as the inputs say. -/
theorem sum_coefficients (b : ℕ) (x y : Fp.Element Q) : ∑ i, coefficients b x y i • A i =
    A 0 + lowPart b x • A 1 + highPart b x • A 2 + lowPart b y • A 3 + highPart b y • A 4 := by
  simp [Fin.sum_univ_five, coefficients]

/-- **The hash is the `x`-coordinate of the combination** of the five points. -/
theorem Sound.hash_eq (h : Sound params P A) (x y : Fp.Element Q) : hash params P x y =
    some (xCoordinate (∑ i, coefficients params.LOW_PART_BITS x y i • A i)) := by
  obtain ⟨px, hpx, hx⟩ := h.exists_processSingleElement h.P_1 h.P_2 x
  obtain ⟨py, hpy, hy⟩ := h.exists_processSingleElement h.P_3 h.P_4 y
  have hsum := (h.P_0.ofAffine.addAssign h.elliptic hx).addAssign h.elliptic hy
  rw [← add_assoc, ← add_assoc, ← sum_coefficients] at hsum
  rw [hash, hpx, hpy, ← x_of_represents (Sw.Projective.represents_iff.mp hsum)]
  rfl

/-! ### Collisions

Two inputs with one hash give two combinations of the points that are equal or opposite. The
difference or the sum of their coefficients is the relation, and it is not trivial because the
inputs differ. -/

/-- **A collision is a relation** between the five points. -/
theorem Sound.exists_relation (hs : Sound params P A) {x y x' y' h : Fp.Element Q}
    (hne : (x, y) ≠ (x', y')) (hxy : hash params P x y = some (some h))
    (hxy' : hash params P x' y' = some (some h)) :
    ∃ s : Fin 5 → ℤ,
      (s = coefficients params.LOW_PART_BITS x y - coefficients params.LOW_PART_BITS x' y' ∨
        s = coefficients params.LOW_PART_BITS x y + coefficients params.LOW_PART_BITS x' y') ∧
      s ≠ 0 ∧ ∑ i, s i • A i = 0 := by
  have hx := Option.some.inj ((hs.hash_eq x y).symm.trans hxy)
  have hx' := Option.some.inj ((hs.hash_eq x' y').symm.trans hxy')
  rcases eq_or_eq_neg hx hx' with heq | hneg
  · refine ⟨_, Or.inl rfl, ?_, ?_⟩
    · rw [Ne, sub_eq_zero]
      intro h
      obtain ⟨rfl, rfl⟩ := coefficients_injective h
      exact hne rfl
    · simp only [Pi.sub_apply, sub_smul, Finset.sum_sub_distrib, heq, sub_self]
  · refine ⟨_, Or.inr rfl, fun h => ?_, ?_⟩
    · have htwo : (1 + 1 : ℤ) = 0 := congrFun h 0
      exact absurd htwo (by norm_num)
    · simp only [Pi.add_apply, add_smul, Finset.sum_add_distrib, hneg, neg_add_cancel]

end Pedersen

/-! ### Starknet

The points are checked to be on the curve, and the bound on the coefficients is that of the
modulus. -/

open Starknet

/-- Pedersen hash parameters for Starknet. -/
def StarknetPedersenParams : PedersenParams StarknetFqParam where
  P_0 := .newUnchecked
    (.fromNum 2089986280348253421170679821480865132823066470938446095505822317253594081284)
    (.fromNum 1713931329540660377023406109199410414810705867260802078187082345529207694986)
  P_1 := .newUnchecked
    (.fromNum 996781205833008774514500082376783249102396023663454813447423147977397232763)
    (.fromNum 1668503676786377725805489344771023921079126552019160156920634619255970485781)
  P_2 := .newUnchecked
    (.fromNum 2251563274489750535117886426533222435294046428347329203627021249169616184184)
    (.fromNum 1798716007562728905295480679789526322175868328062420237419143593021674992973)
  P_3 := .newUnchecked
    (.fromNum 2138414695194151160943305727036575959195309218611738193261179310511854807447)
    (.fromNum 113410276730064486255102093846540133784865286929052426931474106396135072156)
  P_4 := .newUnchecked
    (.fromNum 2379962749567351885752724891227938183011949129833673362440656643086021394946)
    (.fromNum 776496453633298175483985398648758586525933812536653089401905292063708816422)
  LOW_PART_BITS := 248
  LOW_PART_MASK := .fromNum 0x00ffffffffffffffffffffffffffffffffffffffffffffffffffffffffffffff

namespace Pedersen

/-- **The constants of Starknet** are right. -/
theorem exists_sound : ∃ A : Fin 5 → Point, Sound StarknetPedersenParams StarknetCurveConfig A := by
  obtain ⟨A0, h0⟩ : ∃ A : Point, StarknetPedersenParams.P_0.Represents A :=
    exists_point (by norm_num) (by norm_num) (by decide +kernel)
  obtain ⟨A1, h1⟩ : ∃ A : Point, StarknetPedersenParams.P_1.Represents A :=
    exists_point (by norm_num) (by norm_num) (by decide +kernel)
  obtain ⟨A2, h2⟩ : ∃ A : Point, StarknetPedersenParams.P_2.Represents A :=
    exists_point (by norm_num) (by norm_num) (by decide +kernel)
  obtain ⟨A3, h3⟩ : ∃ A : Point, StarknetPedersenParams.P_3.Represents A :=
    exists_point (by norm_num) (by norm_num) (by decide +kernel)
  obtain ⟨A4, h4⟩ : ∃ A : Point, StarknetPedersenParams.P_4.Represents A :=
    exists_point (by norm_num) (by norm_num) (by decide +kernel)
  exact ⟨![A0, A1, A2, A3, A4], elliptic, h0, h1, h2, h3, h4, by decide,
    Uint.toNat_fromNum (by norm_num)⟩

/-- Twice the bounds of the coefficients. -/
theorem abs_le_of_parts {x y x' y' : Fq} {s : Fin 5 → ℤ}
    (hs : s = coefficients 248 x y - coefficients 248 x' y' ∨
      s = coefficients 248 x y + coefficients 248 x' y') (i : Fin 5) :
    |s i| ≤ 2 * (![1, 2 ^ 248, 8, 2 ^ 248, 8] : Fin 5 → ℤ) i := by
  have hp : StarknetFqParam.p ≤ 2 ^ 248 * (8 + 1) := by
    rw [p_Fq]
    decide +kernel
  obtain ⟨hlow, hhigh⟩ := coefficients_le hp x y i
  obtain ⟨hlow', hhigh'⟩ := coefficients_le hp x' y' i
  rw [abs_le]
  rcases hs with rfl | rfl
  · rw [Pi.sub_apply]
    constructor <;> push_cast at * <;> linarith
  · rw [Pi.add_apply]
    constructor <;> push_cast at * <;> linarith

/-- **The Pedersen hash of Starknet.** The constants are five points. The hash of any two inputs,
split at bit 248, is the `x`-coordinate of the first point and the multiples of the others by the
parts, and `None` when that is the point at infinity. Two different pairs of inputs with one hash
give a relation between the points: the differences of the multiples, or their sums. These
coefficients are small and not all zero, also modulo the order of the scalar field. -/
theorem hash_collision : ∃ A : Fin 5 → Point,
    (StarknetPedersenParams.P_0.Represents (A 0) ∧ StarknetPedersenParams.P_1.Represents (A 1) ∧
      StarknetPedersenParams.P_2.Represents (A 2) ∧ StarknetPedersenParams.P_3.Represents (A 3) ∧
      StarknetPedersenParams.P_4.Represents (A 4)) ∧
    (∀ x y : Fq, ∃ S : Point,
      S = A 0 + lowPart 248 x • A 1 + highPart 248 x • A 2 + lowPart 248 y • A 3 +
        highPart 248 y • A 4 ∧
      hash StarknetPedersenParams StarknetCurveConfig x y = some (xCoordinate S) ∧
      (hash StarknetPedersenParams StarknetCurveConfig x y = some none ↔ S = 0)) ∧
    ∀ x y x' y' h : Fq, (x, y) ≠ (x', y') →
      hash StarknetPedersenParams StarknetCurveConfig x y = some (some h) →
      hash StarknetPedersenParams StarknetCurveConfig x' y' = some (some h) →
      ∃ s : Fin 5 → ℤ,
        (s = coefficients 248 x y - coefficients 248 x' y' ∨
          s = coefficients 248 x y + coefficients 248 x' y') ∧
        s ≠ 0 ∧ (∀ i, |s i| ≤ 2 * (![1, 2 ^ 248, 8, 2 ^ 248, 8] : Fin 5 → ℤ) i) ∧
        (∃ i, ¬(StarknetFrParam.p : ℤ) ∣ s i) ∧ ∑ i, s i • A i = 0 := by
  obtain ⟨A, hA⟩ := exists_sound
  refine ⟨A, ⟨hA.P_0, hA.P_1, hA.P_2, hA.P_3, hA.P_4⟩, fun x y => ?_, ?_⟩
  · have hhash := hA.hash_eq x y
    rw [sum_coefficients] at hhash
    refine ⟨_, rfl, hhash, ?_⟩
    rw [hhash, Option.some_inj]
    exact xCoordinate_eq_none
  · intro x y x' y' h hne hxy hxy'
    obtain ⟨s, hs, hzero, hsum⟩ := hA.exists_relation hne hxy hxy'
    have hle := abs_le_of_parts hs
    obtain ⟨i, hi⟩ := Function.ne_iff.mp hzero
    refine ⟨s, hs, hzero, hle, ⟨i, fun hdvd => hi ?_⟩, hsum⟩
    refine Int.eq_zero_of_abs_lt_dvd hdvd ((hle i).trans_lt ?_)
    rw [p_Fr]
    fin_cases i <;> decide +kernel

end Pedersen

end ContractsStylus
