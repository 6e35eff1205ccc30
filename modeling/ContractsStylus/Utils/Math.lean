import ContractsStylus.Library.NewtonSqrt
import ContractsStylus.Primitives
import Mathlib.Algebra.Order.Floor.Div

/-!
# Math

The functions on words that the external integer type lacks.

## The square root

The source shifts and adds without checking. `sqrt` follows it on words that wrap, and `sqrtChecked`
is the same text on words that stop where a result does not fit; that the second one always returns,
and returns what the first does, is what makes the arithmetic of the first one exact.

The first estimate is a power of two that is off by a factor of less than two, and a structure
carries what its six steps keep. Newton's method then starts from the middle between the estimate
and its double. How far off it is after each of the six rounds is a fact about numbers and comes
from the library; what is left is that the last iterate is the root or one more.

## Products

`mulDiv` forms the product in twice as many bits, where it always fits, and only the quotient has to
be brought back to a word. It panics for two reasons, and `mulDiv_exact` says exactly when.

## Main definitions

* `sqrt` — the square root of a word, rounded towards zero
* `sqrtChecked` — the same computation on words that are checked for overflow
* `average`, `mulDiv` — the average of two words, and a product divided in full precision
* `Rounding` — how a quotient is rounded

## Main results

* `toNat_sqrt`, `sqrt_spec` — the square root is exact, and no word overflows on the way
* `toNat_average` — the average never overflows
* `mulDiv_eq_ok` — the rounded quotient of the exact product, which has to be a word
* `mulDiv_exact` — when a product is divided, and when that panics
-/

namespace ContractsStylus

/-! ### Square roots -/

/-- One step of the first estimate, on `aa` and `xn`: with `2 ^ k` in `aa` there is `2 ^ (k / 2)`
in the root. -/
def sqrtEstimate (k : ℕ) (s : U256 × U256) : U256 × U256 :=
  if s.1 ≥ (1 : U256) <<< k then (s.1 >>> k, s.2 <<< (k / 2)) else s

/-- One step of Newton's method. -/
def sqrtNewton (a xn : U256) : U256 := (xn + a / xn) >>> 1

/-- The first estimate, a power of two that is at most the root and more than half of it. -/
def sqrtFirst (a : U256) : U256 :=
  let s := [128, 64, 32, 16, 8, 4].foldl (fun s k => sqrtEstimate k s) (a, 1)
  if s.1 ≥ (1 : U256) <<< 2 then s.2 <<< 1 else s.2

/-- The square root of a word, rounded towards zero. -/
def sqrt (self : U256) : U256 :=
  let a := self
  if a ≤ 1 then a
  else
    let xn := sqrtFirst a
    -- the middle between the estimate and its double
    let xn := (3 * xn) >>> 1
    let xn := (sqrtNewton a)^[6] xn
    -- now the root or the number after it
    xn - if xn > a / xn then 1 else 0

/-! ### Square roots on checked words

The same computation, which stops where a result does not fit or where a divisor is zero. -/

/-- A shift to the left that loses no bit. -/
def checkedShl (x : U256) (k : ℕ) : Option U256 :=
  if x.toNat * 2 ^ k < 2 ^ 256 then some (x <<< k) else none

/-- `sqrtEstimate`, checked. -/
def sqrtEstimateChecked (k : ℕ) (s : U256 × U256) : Option (U256 × U256) := do
  let bound ← checkedShl 1 k
  if s.1 ≥ bound then
    let xn ← checkedShl s.2 (k / 2)
    pure (s.1 >>> k, xn)
  else pure s

/-- `sqrtFirst`, checked. -/
def sqrtFirstChecked (a : U256) : Option U256 := do
  let s ← [128, 64, 32, 16, 8, 4].foldlM (fun s k => sqrtEstimateChecked k s) (a, 1)
  let bound ← checkedShl 1 2
  if s.1 ≥ bound then checkedShl s.2 1 else pure s.2

/-- `sqrtNewton`, checked. -/
def sqrtNewtonChecked (a xn : U256) : Option U256 := do
  let quotient ← checkedDiv a xn
  let sum ← checkedAdd xn quotient
  pure (sum >>> 1)

/-- `sqrt`, checked. -/
def sqrtChecked (self : U256) : Option U256 :=
  let a := self
  if a ≤ 1 then some a
  else do
    let xn ← sqrtFirstChecked a
    let triple ← checkedMul 3 xn
    let xn ← (fun xn => xn.bind (sqrtNewtonChecked a))^[6] (some (triple >>> 1))
    let quotient ← checkedDiv a xn
    checkedSub xn (if xn > quotient then 1 else 0)

/-! ### The first estimate

Bits that leave `aa` come into the root as half as many. `SqrtEstimate` bounds what is left of `aa`,
and each step halves the number of bits that it may have. -/

/-- What the first estimate keeps while `aa` gets smaller. -/
structure SqrtEstimate (a : U256) (k : ℕ) (s : U256 × U256) : Prop where
  power : ∃ j, s.2.toNat = 2 ^ j
  le : s.2.toNat ^ 2 * s.1.toNat ≤ a.toNat
  lt : a.toNat < s.2.toNat ^ 2 * (s.1.toNat + 1)
  pos : 0 < s.1.toNat
  small : s.1.toNat < 2 ^ k

theorem toNat_one_shiftLeft {k : ℕ} (hk : k < 256) : ((1 : U256) <<< k).toNat = 2 ^ k := by
  rw [BitVec.toNat_shiftLeft, Nat.shiftLeft_eq]
  exact (congrArg (· % 2 ^ 256) (Nat.one_mul _)).trans
    (Nat.mod_eq_of_lt (Nat.pow_lt_pow_right (by decide) hk))

/-- A square that is no larger than a word is that of half a word. -/
theorem lt_of_sq_le {a : U256} {x : ℕ} (h : x ^ 2 ≤ a.toNat) : x < 2 ^ 128 :=
  lt_of_pow_lt_pow_left₀ 2 (Nat.zero_le _) (h.trans_lt a.isLt)

/-- Bits that leave `aa` come into the root as half as many. -/
theorem SqrtEstimate.shift_le {a : U256} {k : ℕ} {s : U256 × U256} (h : SqrtEstimate a k s)
    (i : ℕ) : (s.2.toNat * 2 ^ i) ^ 2 * (s.1.toNat / 2 ^ (2 * i)) ≤ a.toNat := by
  rw [mul_pow, ← pow_mul, mul_comm i, mul_assoc]
  exact (Nat.mul_le_mul_left _ (Nat.mul_div_le _ _)).trans h.le

/-- The root stays half a word. -/
theorem SqrtEstimate.shift_lt {a : U256} {k i : ℕ} {s : U256 × U256} (h : SqrtEstimate a k s)
    (hge : 2 ^ (2 * i) ≤ s.1.toNat) : s.2.toNat * 2 ^ i < 2 ^ 128 := by
  have hpos : 0 < s.1.toNat / 2 ^ (2 * i) := Nat.div_pos hge (Nat.two_pow_pos _)
  exact lt_of_sq_le ((Nat.le_mul_of_pos_right _ hpos).trans (h.shift_le i))

/-- One step of the estimate. -/
theorem SqrtEstimate.step {a : U256} {k i : ℕ} {s : U256 × U256} (hk : k = 2 * i) (hi : k < 256)
    (h : SqrtEstimate a (2 * k) s) : SqrtEstimate a k (sqrtEstimate k s) := by
  subst hk
  obtain ⟨j, hj⟩ := h.power
  rw [sqrtEstimate, Nat.mul_div_cancel_left i two_pos]
  split
  · rename_i hge
    rw [ge_iff_le, BitVec.le_def, toNat_one_shiftLeft hi] at hge
    have hsplit : (2 ^ i) ^ 2 = 2 ^ (2 * i) := by rw [← pow_mul, mul_comm]
    have hsmall := h.small
    rw [two_mul (2 * i), pow_add] at hsmall
    have hdiv : (s.1 >>> (2 * i)).toNat = s.1.toNat / 2 ^ (2 * i) := by
      rw [BitVec.toNat_ushiftRight, Nat.shiftRight_eq_div_pow]
    have hxn : (s.2 <<< i).toNat = s.2.toNat * 2 ^ i := by
      rw [BitVec.toNat_shiftLeft, Nat.shiftLeft_eq,
        Nat.mod_eq_of_lt ((h.shift_lt hge).trans (by decide))]
    refine ⟨⟨j + i, by rw [hxn, hj, pow_add]⟩, ?_, ?_, ?_, ?_⟩
    · rw [hxn, hdiv]
      exact h.shift_le i
    · rw [hxn, hdiv, mul_pow, hsplit, mul_assoc]
      exact h.lt.trans_le (Nat.mul_le_mul_left _ (Nat.lt_mul_div_succ _ (Nat.two_pow_pos _)))
    · rw [hdiv]
      exact Nat.div_pos hge (Nat.two_pow_pos _)
    · rw [hdiv]
      exact Nat.div_lt_of_lt_mul hsmall
  · rename_i hlt
    rw [ge_iff_le, BitVec.le_def, toNat_one_shiftLeft hi, not_le] at hlt
    exact ⟨h.power, h.le, h.lt, h.pos, hlt⟩

/-- The last step of the estimate, after which `aa` is not used. -/
theorem SqrtEstimate.last {a : U256} {s : U256 × U256} (h : SqrtEstimate a 4 s) :
    ∃ j, (if s.1 ≥ (1 : U256) <<< 2 then s.2 <<< 1 else s.2).toNat = 2 ^ j ∧
      (2 ^ j) ^ 2 ≤ a.toNat ∧ a.toNat < 4 * (2 ^ j) ^ 2 := by
  obtain ⟨j, hj⟩ := h.power
  have hle := h.le
  have hlt := h.lt
  rw [hj] at hle hlt
  split
  · rename_i hge
    rw [ge_iff_le, BitVec.le_def, toNat_one_shiftLeft (by decide)] at hge
    have hsq : (2 ^ (j + 1)) ^ 2 = (2 ^ j) ^ 2 * 2 ^ 2 := by ring
    have hle' : (2 ^ (j + 1)) ^ 2 ≤ a.toNat := by
      rw [hsq]
      exact (Nat.mul_le_mul_left _ hge).trans hle
    refine ⟨j + 1, ?_, hle', ?_⟩
    · rw [BitVec.toNat_shiftLeft, Nat.shiftLeft_eq, hj, ← pow_add,
        Nat.mod_eq_of_lt ((lt_of_sq_le hle').trans (by decide))]
    · rw [hsq, mul_comm 4, mul_assoc]
      exact hlt.trans_le (Nat.mul_le_mul_left _ h.small)
  · rename_i hlt'
    rw [ge_iff_le, BitVec.le_def, toNat_one_shiftLeft (by decide), not_le] at hlt'
    refine ⟨j, hj, (Nat.le_mul_of_pos_right _ h.pos).trans hle, ?_⟩
    rw [mul_comm]
    exact hlt.trans_le (Nat.mul_le_mul_left _ hlt')

theorem checkedShl_one {k : ℕ} (hk : k < 256) : checkedShl 1 k = some ((1 : U256) <<< k) := by
  refine if_pos ?_
  rw [show (1 : U256).toNat = 1 from rfl, one_mul]
  exact Nat.pow_lt_pow_right (by decide) hk

/-- No step of the estimate loses a bit. -/
theorem SqrtEstimate.checked {a : U256} {k i : ℕ} {s : U256 × U256} (hk : k = 2 * i)
    (hi : k < 256) (h : SqrtEstimate a (2 * k) s) :
    sqrtEstimateChecked k s = some (sqrtEstimate k s) := by
  subst hk
  rw [sqrtEstimateChecked, checkedShl_one hi, sqrtEstimate, Nat.mul_div_cancel_left i two_pos,
    Option.bind_eq_bind, Option.bind_some]
  split
  · rename_i hge
    rw [ge_iff_le, BitVec.le_def, toNat_one_shiftLeft hi] at hge
    rw [checkedShl, if_pos ((h.shift_lt hge).trans (by decide))]
    rfl
  · rfl

/-- Steps of the estimate, each for half as many bits as the one before. None of them loses a
bit. -/
theorem SqrtEstimate.fold {a : U256} (ks : List ℕ) : ∀ {k : ℕ} {s : U256 × U256},
    List.IsChain (fun k k' => k = 2 * k' ∧ k' = 2 * (k' / 2) ∧ k' < 256) (k :: ks) →
    SqrtEstimate a k s →
    SqrtEstimate a (ks.getLastD k) (ks.foldl (fun s k => sqrtEstimate k s) s) ∧
      ks.foldlM (fun s k => sqrtEstimateChecked k s) s =
        some (ks.foldl (fun s k => sqrtEstimate k s) s) := by
  induction ks with
  | nil => exact fun _ h => ⟨h, rfl⟩
  | cons k' ks ih =>
    intro k s hchain h
    rw [List.isChain_cons_cons] at hchain
    obtain ⟨⟨rfl, heven, hlt⟩, hrest⟩ := hchain
    obtain ⟨hlast, hfold⟩ := ih hrest (h.step heven hlt)
    refine ⟨?_, ?_⟩
    · rw [List.getLastD_cons]
      exact hlast
    · rw [List.foldlM_cons, h.checked heven hlt]
      exact hfold

/-- All but the last step of the estimate. -/
theorem SqrtEstimate.start {a : U256} (ha : 0 < a.toNat) :
    SqrtEstimate a 4 ([128, 64, 32, 16, 8, 4].foldl (fun s k => sqrtEstimate k s) (a, 1)) ∧
      [128, 64, 32, 16, 8, 4].foldlM (fun s k => sqrtEstimateChecked k s) (a, 1) =
        some ([128, 64, 32, 16, 8, 4].foldl (fun s k => sqrtEstimate k s) (a, 1)) :=
  have h : SqrtEstimate a 256 (a, 1) := ⟨⟨0, rfl⟩, by simp, by simp, ha, a.isLt⟩
  SqrtEstimate.fold [128, 64, 32, 16, 8, 4] (by simp) h

/-- **The first estimate** is a power of two between half of the root and the root. -/
theorem sqrtFirst_spec {a : U256} (ha : 0 < a.toNat) :
    ∃ j, (sqrtFirst a).toNat = 2 ^ j ∧ (2 ^ j) ^ 2 ≤ a.toNat ∧ a.toNat < 4 * (2 ^ j) ^ 2 :=
  (SqrtEstimate.start ha).1.last

/-- The last shift does not lose a bit either. -/
theorem sqrtFirstChecked_eq {a : U256} (ha : 0 < a.toNat) :
    sqrtFirstChecked a = some (sqrtFirst a) := by
  obtain ⟨h, hfold⟩ := SqrtEstimate.start ha
  rw [sqrtFirstChecked, hfold, sqrtFirst, Option.bind_eq_bind, Option.bind_some,
    checkedShl_one (by decide)]
  generalize [128, 64, 32, 16, 8, 4].foldl (fun s k => sqrtEstimate k s) (a, 1) = s at h ⊢
  rw [Option.bind_eq_bind, Option.bind_some]
  split
  · rename_i hge
    rw [ge_iff_le, BitVec.le_def, toNat_one_shiftLeft (by decide)] at hge
    exact if_pos ((h.shift_lt (i := 1) hge).trans (by decide))
  · rfl

/-! ### Newton's method

The iterates are words, and how far they are off is a real number. Wherever a step starts, it does
not end below the root; so it is only the distance from above that has to get small. -/

/-- **One step of Newton's method** does not overflow. -/
theorem toNat_sqrtNewton {a xn : U256} {p : ℕ} (hp : 0 < p) (hsmall : p < 2 ^ 128)
    (hlow : p ≤ xn.toNat) (hhigh : xn.toNat ≤ 4 * p) (ha : a.toNat < 4 * p ^ 2) :
    (sqrtNewton a xn).toNat = Newton.step a.toNat xn.toNat := by
  obtain ⟨hdiv, -⟩ := Newton.step_le hp hlow hhigh ha
  rw [sqrtNewton, BitVec.toNat_ushiftRight, Nat.shiftRight_eq_div_pow, pow_one,
    BitVec.toNat_add_of_lt, BitVec.toNat_udiv, Newton.step]
  rw [BitVec.toNat_udiv]
  omega

/-- An iterate is at most `p / c` too large, and not too small. -/
structure SqrtIterate (a : U256) (p : ℕ) (c : ℝ) (xn : U256) : Prop where
  low : a.toNat.sqrt ≤ xn.toNat
  high : xn.toNat ≤ 4 * p
  near : Newton.Near a.toNat p c xn.toNat

/-- What a step leads to is not too small, from wherever it starts. -/
theorem SqrtIterate.of_step {a xn : U256} {p : ℕ} {c : ℝ} (hle : p ^ 2 ≤ a.toNat)
    (hlt : a.toNat < 4 * p ^ 2) (hp : 0 < p) (hlow : p ≤ xn.toNat) (hhigh : xn.toNat ≤ 4 * p)
    (hnear : Newton.Near a.toNat p c (Newton.step a.toNat xn.toNat)) :
    SqrtIterate a p c (sqrtNewton a xn) := by
  have hstep := toNat_sqrtNewton hp (lt_of_sq_le hle) hlow hhigh hlt
  refine ⟨?_, ?_, ?_⟩
  · rw [hstep]
    exact Newton.sqrt_le_step (hp.trans_le hlow)
  · rw [hstep]
    exact (Newton.step_le hp hlow hhigh hlt).2
  · rw [hstep]
    exact hnear

/-- One iteration squares the precision. -/
theorem SqrtIterate.step {a xn : U256} {p : ℕ} {c : ℝ} (h : SqrtIterate a p c xn) (hc : 0 < c)
    (hp : 0 < p) (hle : p ^ 2 ≤ a.toNat) (hlt : a.toNat < 4 * p ^ 2) :
    SqrtIterate a p (2 * c ^ 2) (sqrtNewton a xn) := by
  have hroot : p ≤ a.toNat.sqrt := Nat.le_sqrt'.mpr hle
  exact .of_step hle hlt hp (hroot.trans h.low) h.high (h.near.step hc hp hroot h.low)

/-- So do several, one after the other. -/
theorem SqrtIterate.iterate {a xn : U256} {p : ℕ} {c : ℝ} (h : SqrtIterate a p c xn) (hp : 0 < p)
    (hle : p ^ 2 ≤ a.toNat) (hlt : a.toNat < 4 * p ^ 2) (hc : 0 < c) (n : ℕ) :
    0 < (fun c : ℝ => 2 * c ^ 2)^[n] c ∧
      SqrtIterate a p ((fun c => 2 * c ^ 2)^[n] c) ((sqrtNewton a)^[n] xn) := by
  induction n with
  | zero => exact ⟨hc, h⟩
  | succ n ih =>
    obtain ⟨hpos, hn⟩ := ih
    rw [Function.iterate_succ_apply', Function.iterate_succ_apply']
    exact ⟨by positivity, hn.step hpos hp hle hlt⟩

/-- The middle between the first estimate and its double. -/
theorem toNat_sqrtMiddle {xn : U256} {p : ℕ} (hsmall : p < 2 ^ 128) (hp : xn.toNat = p) :
    ((3 * xn) >>> 1).toNat = 3 * p / 2 := by
  have hthree : (3 : U256).toNat = 3 := rfl
  rw [BitVec.toNat_ushiftRight, Nat.shiftRight_eq_div_pow, pow_one, BitVec.toNat_mul, hp, hthree,
    Nat.mod_eq_of_lt (by omega)]

/-- The middle is at most half an estimate away from the root. -/
theorem middle_sub_sqrt_sq_le {a j : ℕ} (hle : (2 ^ (j + 1)) ^ 2 ≤ a)
    (hlt : a < 4 * (2 ^ (j + 1)) ^ 2) : ((3 * 2 ^ j : ℝ) - √a) ^ 2 ≤ (2 ^ j) ^ 2 := by
  have hpos : (0 : ℝ) < 2 ^ j := by positivity
  have hlow : (2 : ℝ) * 2 ^ j ≤ √a := by
    refine Real.le_sqrt_of_sq_le ?_
    rw [← pow_succ']
    exact_mod_cast hle
  have hhigh : √(a : ℝ) ≤ 4 * 2 ^ j := by
    refine Real.sqrt_le_iff.mpr ⟨by positivity, ?_⟩
    have hcast : (a : ℝ) ≤ 4 * (2 ^ (j + 1)) ^ 2 := by exact_mod_cast hlt.le
    refine hcast.trans_eq ?_
    ring
  exact sq_le_sq' (by linarith) (by linarith)

/-- The first iteration leaves a twelfth of an estimate. -/
theorem SqrtIterate.start {a x0 : U256} {j : ℕ} (hx : x0.toNat = 3 * 2 ^ j / 2)
    (hle : (2 ^ j) ^ 2 ≤ a.toNat) (hlt : a.toNat < 4 * (2 ^ j) ^ 2) :
    SqrtIterate a (2 ^ j) 12 (sqrtNewton a x0) := by
  have hp : 0 < 2 ^ j := Nat.two_pow_pos j
  have hlow : 2 ^ j ≤ x0.toNat := by omega
  have hhigh : x0.toNat ≤ 4 * 2 ^ j := by omega
  refine .of_step hle hlt hp hlow hhigh ?_
  cases j with
  | zero =>
    -- the middle is rounded to one, and so is the root
    have hroot : 1 ≤ a.toNat.sqrt := Nat.le_sqrt'.mpr hle
    refine Or.inl ?_
    rw [hx, Newton.step]
    omega
  | succ j =>
    right
    have hx' : (x0.toNat : ℝ) = 3 * 2 ^ j := by
      rw [hx, pow_succ, ← mul_assoc, Nat.mul_div_cancel _ two_pos]
      push_cast
      rfl
    have hsq := middle_sub_sqrt_sq_le hle hlt
    calc
      (Newton.step a.toNat x0.toNat : ℝ) - √a.toNat
          ≤ (x0.toNat - √a.toNat) ^ 2 / (2 * x0.toNat) :=
        Newton.step_sub_le (hp.trans_le hlow)
      _ ≤ (2 ^ j) ^ 2 / (2 * (3 * 2 ^ j)) := by rw [hx']; gcongr
      _ = ((2 ^ (j + 1) : ℕ) : ℝ) / 12 := by
        push_cast
        field_simp
        ring

theorem toNat_pos_of_not_le_one {a : U256} (hone : ¬a ≤ 1) : 0 < a.toNat := by
  rw [BitVec.le_def, not_le] at hone
  exact hone.trans_le' (Nat.zero_le _)

/-- **The square root is exact**, rounded towards zero. -/
theorem toNat_sqrt (a : U256) : (sqrt a).toNat = a.toNat.sqrt := by
  rw [sqrt]
  dsimp only
  by_cases hone : a ≤ 1
  · rw [if_pos hone]
    rw [BitVec.le_def] at hone
    change _ ≤ 1 at hone
    obtain h | h : a.toNat = 0 ∨ a.toNat = 1 := by omega
    · rw [h, Nat.sqrt_zero]
    · rw [h, Nat.sqrt_one]
  rw [if_neg hone]
  have hpos := toNat_pos_of_not_le_one hone
  obtain ⟨j, hxn, hle, hlt⟩ := sqrtFirst_spec hpos
  have hp : 0 < 2 ^ j := Nat.two_pow_pos j
  have hsmall := lt_of_sq_le hle
  have h6 := ((SqrtIterate.start (toNat_sqrtMiddle hsmall hxn) hle hlt).iterate hp hle hlt
    (by norm_num) 5).2
  rw [← Function.iterate_succ_apply (sqrtNewton a) 5] at h6
  generalize (sqrtNewton a)^[6] ((3 * sqrtFirst a) >>> 1) = xn at h6 ⊢
  have hlast : xn.toNat ≤ a.toNat.sqrt + 1 := by
    refine h6.near.le ?_
    have hcast : ((2 ^ j : ℕ) : ℝ) < 2 ^ 128 := by exact_mod_cast hsmall
    refine hcast.trans ?_
    norm_num [Function.iterate_succ_apply]
  rw [← Newton.correct hpos h6.low hlast]
  have hcond : xn > a / xn ↔ a.toNat / xn.toNat < xn.toNat := by
    rw [gt_iff_lt, BitVec.lt_def, BitVec.toNat_udiv]
  have hxpos : 0 < xn.toNat := (Nat.sqrt_pos.mpr hpos).trans_le h6.low
  by_cases h : a.toNat / xn.toNat < xn.toNat
  · rw [if_pos h, if_pos (hcond.mpr h), BitVec.toNat_sub_one hxpos]
  · rw [if_neg h, if_neg (mt hcond.mp h), Nat.sub_zero]
    exact congrArg BitVec.toNat (sub_zero xn)

/-- A step of Newton's method that starts between the estimate and four times that. -/
theorem sqrtNewtonChecked_eq {a xn : U256} {p : ℕ} (hp : 0 < p) (hsmall : p < 2 ^ 128)
    (hlow : p ≤ xn.toNat) (hhigh : xn.toNat ≤ 4 * p) (ha : a.toNat < 4 * p ^ 2) :
    sqrtNewtonChecked a xn = some (sqrtNewton a xn) := by
  obtain ⟨hdiv, -⟩ := Newton.step_le hp hlow hhigh ha
  have hne : xn ≠ 0 := fun hzero => by
    rw [hzero] at hlow
    exact absurd hlow (not_le.mpr hp)
  have hsum : xn.toNat + (a / xn).toNat < 2 ^ 256 := by
    rw [BitVec.toNat_udiv]
    omega
  rw [sqrtNewtonChecked, checkedDiv, if_neg hne, Option.bind_eq_bind, Option.bind_some, checkedAdd,
    if_pos hsum]
  rfl

/-- The steps after one another stay between these bounds. -/
theorem sqrtNewtonChecked_iterate {a xn : U256} {p : ℕ} (hp : 0 < p) (hle : p ^ 2 ≤ a.toNat)
    (hlow : p ≤ xn.toNat) (hhigh : xn.toNat ≤ 4 * p) (ha : a.toNat < 4 * p ^ 2) (n : ℕ) :
    (fun xn => xn.bind (sqrtNewtonChecked a))^[n] (some xn) = some ((sqrtNewton a)^[n] xn) ∧
      p ≤ ((sqrtNewton a)^[n] xn).toNat ∧ ((sqrtNewton a)^[n] xn).toNat ≤ 4 * p := by
  induction n with
  | zero => exact ⟨rfl, hlow, hhigh⟩
  | succ n ih =>
    obtain ⟨hrun, hlow, hhigh⟩ := ih
    have hsmall := lt_of_sq_le hle
    have hstep := toNat_sqrtNewton hp hsmall hlow hhigh ha
    have hroot : p ≤ a.toNat.sqrt := Nat.le_sqrt'.mpr hle
    rw [Function.iterate_succ_apply', Function.iterate_succ_apply', hrun, hstep]
    refine ⟨sqrtNewtonChecked_eq hp hsmall hlow hhigh ha, ?_, ?_⟩
    · exact hroot.trans (Newton.sqrt_le_step (hp.trans_le hlow))
    · exact (Newton.step_le hp hlow hhigh ha).2

/-- **The square root is exact, and no word overflows on the way.** The root of a word is the
number whose square is at most the word, and the square of whose successor is more. -/
theorem sqrt_spec (a : U256) :
    (sqrt a).toNat ^ 2 ≤ a.toNat ∧ a.toNat < ((sqrt a).toNat + 1) ^ 2 ∧
      sqrtChecked a = some (sqrt a) := by
  rw [toNat_sqrt]
  refine ⟨Nat.sqrt_le' _, Nat.lt_succ_sqrt' _, ?_⟩
  rw [sqrtChecked, sqrt]
  dsimp only
  by_cases hone : a ≤ 1
  · rw [if_pos hone, if_pos hone]
  have hpos := toNat_pos_of_not_le_one hone
  obtain ⟨j, hxn, hle, hlt⟩ := sqrtFirst_spec hpos
  have hp : 0 < 2 ^ j := Nat.two_pow_pos j
  have hsmall := lt_of_sq_le hle
  have hmiddle := toNat_sqrtMiddle hsmall hxn
  have hthree : (3 : U256).toNat * (sqrtFirst a).toNat < 2 ^ 256 := by
    rw [hxn, show (3 : U256).toNat = 3 from rfl]
    omega
  obtain ⟨hrun, hlow, -⟩ := @sqrtNewtonChecked_iterate a ((3 * sqrtFirst a) >>> 1) (2 ^ j) hp hle
    (by omega) (by omega) hlt 6
  rw [if_neg hone, if_neg hone]
  simp only [sqrtFirstChecked_eq hpos, checkedMul, if_pos hthree, hrun, Option.bind_eq_bind,
    Option.bind_some]
  generalize (sqrtNewton a)^[6] ((3 * sqrtFirst a) >>> 1) = xn at hlow ⊢
  have hone : 1 ≤ xn.toNat := hp.trans_le hlow
  have hne : xn ≠ 0 := fun hzero => by
    rw [hzero] at hone
    exact absurd hone (by decide)
  have hle : (if xn > a / xn then 1 else 0 : U256) ≤ xn := by
    rw [BitVec.le_def]
    split
    · exact hone
    · exact Nat.zero_le _
  rw [checkedDiv, if_neg hne, Option.bind_some, checkedSub, if_pos hle]

/-- The average of two words, rounded towards zero. -/
def average (self rhs : U256) : U256 :=
  -- the bits both have are the carries, the others are added without
  (self &&& rhs) + ((self ^^^ rhs) >>> 1)

theorem toNat_average (x y : U256) : (average x y).toNat = (x.toNat + y.toNat) / 2 :=
  BitVec.toNat_and_add_xor_shiftRight x y

/-! ### Products and quotients -/

inductive Rounding
  /-- Rounding toward negative infinity. -/
  | Floor
  /-- Rounding toward positive infinity. -/
  | Ceil
  deriving DecidableEq, Repr

/-- The quotient of two numbers, rounded. -/
def Rounding.div : Rounding → ℕ → ℕ → ℕ
  | .Floor, n, d => n / d
  | .Ceil, n, d => n ⌈/⌉ d

theorem Rounding.floor_mul_le (n d : ℕ) : Rounding.Floor.div n d * d ≤ n := Nat.div_mul_le_self n d

theorem Rounding.le_ceil_mul (n : ℕ) {d : ℕ} (hd : 0 < d) : n ≤ Rounding.Ceil.div n d * d := by
  rw [mul_comm]
  exact le_smul_ceilDiv hd

theorem Rounding.ceil_le_iff {n d k : ℕ} (hd : 0 < d) : Rounding.Ceil.div n d ≤ k ↔ n ≤ k * d := by
  rw [mul_comm]
  exact ceilDiv_le_iff_le_mul hd

/-- `self * y / denominator`, with the product taken in twice as many bits. -/
def mulDiv {ε : Type} (self y denominator : U256) (rounding : Rounding) : Result ε U256 := do
  (if denominator = 0 then .panic "division by U256::ZERO in `Math::mul_div`" else .ok ())
  let prod ← expect (checkedMul (self.setWidth 512) (y.setWidth 512))
    "should not panic with `U256` * `U256`"
  -- adjust for rounding if needed
  let adjusted ← (match rounding with
    | .Floor => .ok prod
    | .Ceil => expect (checkedAdd prod (denominator.setWidth 512 - 1)) "should not exceed `U512`")
  let result ← expect (checkedDiv adjusted (denominator.setWidth 512))
    "should not panic with `U512` / `U512`"
  if result > (MAX 256).setWidth 512 then .panic "should fit into `U256` in `Math::mul_div`"
  else pure (result.setWidth 256)

section Widen

variable {w v : ℕ} {x y d : BitVec w}

/-- A product of words fits into twice as many bits. -/
theorem checkedMul_widen (hv : v = w + w) (x y : BitVec w) :
    ∃ p, checkedMul (x.setWidth v) (y.setWidth v) = some p ∧ p.toNat = x.toNat * y.toNat := by
  have hlt : x.toNat * y.toNat < 2 ^ v := by
    rw [hv]
    exact (Nat.le_add_right ..).trans_lt (BitVec.toNat_mul_add_lt x y 0)
  have hp : (BitVec.ofNat v (x.toNat * y.toNat)).toNat = x.toNat * y.toNat := by
    rw [BitVec.toNat_ofNat, Nat.mod_eq_of_lt hlt]
  refine ⟨_, ?_, hp⟩
  rw [checkedMul_eq_some, hp, BitVec.toNat_setWidth_of_le (by omega),
    BitVec.toNat_setWidth_of_le (by omega)]

/-- So does the product with less than another word on top. -/
theorem checkedAdd_widen (hv : v = w + w) {p : BitVec v} (hp : p.toNat = x.toNat * y.toNat)
    (hd : 0 < d.toNat) :
    ∃ q, checkedAdd p (d.setWidth v - 1) = some q ∧
      q.toNat = x.toNat * y.toNat + d.toNat - 1 := by
  have hwiden : (d.setWidth v).toNat = d.toNat := BitVec.toNat_setWidth_of_le (by omega)
  have hsub : (d.setWidth v - 1).toNat = d.toNat - 1 := by
    rw [BitVec.toNat_sub_one (hwiden ▸ hd), hwiden]
  have hlt : x.toNat * y.toNat + (d.toNat - 1) < 2 ^ v := by
    rw [hv]
    exact BitVec.toNat_mul_add_lt x y d
  have hq := (BitVec.toNat_ofNat ..).trans (Nat.mod_eq_of_lt hlt)
  refine ⟨BitVec.ofNat v (x.toNat * y.toNat + (d.toNat - 1)), ?_, ?_⟩
  · rw [checkedAdd_eq_some, hp, hsub, hq]
  · rw [hq]
    omega

/-- A wide quotient is narrowed where the largest narrow word is not exceeded. -/
theorem narrow_div_eq_ok {ε : Type} {q : BitVec v} {z : BitVec w} {msg msg' : String}
    (hv : w ≤ v) (hd : 0 < d.toNat) :
    (do
      let result ← expect (checkedDiv q (d.setWidth v)) msg
      if result > (MAX w).setWidth v then Result.panic msg'
      else pure (result.setWidth w) : Result ε (BitVec w)) = .ok z ↔
      z.toNat = q.toNat / d.toNat := by
  have hwiden : (d.setWidth v).toNat = d.toNat := BitVec.toNat_setWidth_of_le hv
  have hmax : ((MAX w).setWidth v).toNat = 2 ^ w - 1 := by
    rw [BitVec.toNat_setWidth_of_le hv, BitVec.toNat_allOnes]
  have hne : d.setWidth v ≠ 0 := fun h => by
    rw [h, BitVec.ofNat_eq_ofNat, BitVec.toNat_zero] at hwiden
    exact hd.ne hwiden
  have hquot : (q / d.setWidth v).toNat = q.toNat / d.toNat := by
    rw [BitVec.toNat_udiv, hwiden]
  have hz := z.isLt
  rw [checkedDiv, if_neg hne, expect, ok_bind]
  split <;> rename_i hlt <;> rw [gt_iff_lt, BitVec.lt_def, hmax, hquot] at hlt
  · simp only [panic_ne_ok, false_iff]
    omega
  · rw [pure_eq_ok, ← BitVec.toNat_inj, BitVec.toNat_setWidth, hquot, Nat.mod_eq_of_lt (by omega)]
    exact eq_comm

end Widen

/-- **The rounded quotient of the exact product**, which has to be a word. -/
theorem mulDiv_eq_ok {ε : Type} {x y d z : U256} {r : Rounding} :
    (mulDiv x y d r : Result ε U256) = .ok z ↔
      d ≠ 0 ∧ z.toNat = r.div (x.toNat * y.toNat) d.toNat := by
  by_cases hd : d = 0
  · rw [mulDiv, if_pos hd]
    simp [hd]
  have hpos : 0 < d.toNat := BitVec.toNat_pos_of_ne_zero hd
  obtain ⟨p, hp, hpn⟩ := checkedMul_widen (v := 512) rfl x y
  rw [mulDiv, if_neg hd, hp, ok_bind, expect, ok_bind]
  cases r with
  | Floor =>
    rw [ok_bind, narrow_div_eq_ok (by decide) hpos, hpn]
    exact (and_iff_right hd).symm
  | Ceil =>
    obtain ⟨q, hq, hqn⟩ := checkedAdd_widen rfl hpn hpos
    rw [hq, expect, ok_bind, narrow_div_eq_ok (by decide) hpos, hqn]
    exact (and_iff_right hd).symm

/-- A product that is divided returns no error of its own. -/
theorem mulDiv_noErr {ε : Type} (x y d : U256) (r : Rounding) :
    Result.NoErr (mulDiv x y d r : Result ε U256) := by
  refine Result.NoErr.bind ?_ fun _ => .bind (.expect _ _) fun _ => .bind ?_ fun _ =>
    .bind (.expect _ _) fun _ => ?_
  · split
    · exact nofun
    · exact .of_ok ()
  · cases r with
    | Floor => exact .of_ok _
    | Ceil => exact .expect _ _
  · split
    · exact nofun
    · exact .of_ok _

/-- **A product is divided exactly, or the call panics.** The result is the exact quotient, rounded
down or up; the call panics for a zero denominator and for a rounded quotient that is not a word,
and fails in no other way. -/
theorem mulDiv_exact {ε : Type} (x y d : U256) (r : Rounding) :
    (∀ z, (mulDiv x y d r : Result ε U256) = .ok z ↔
      d ≠ 0 ∧ z.toNat = r.div (x.toNat * y.toNat) d.toNat) ∧
    ((∃ msg, (mulDiv x y d r : Result ε U256) = .panic msg) ↔
      d = 0 ∨ 2 ^ 256 ≤ r.div (x.toNat * y.toNat) d.toNat) ∧
    Result.NoErr (mulDiv x y d r : Result ε U256) := by
  have hok : ∀ z, (mulDiv x y d r : Result ε U256) = .ok z ↔
      d ≠ 0 ∧ z.toNat = r.div (x.toNat * y.toNat) d.toNat := fun z => mulDiv_eq_ok
  refine ⟨hok, ⟨?_, fun h => ?_⟩, mulDiv_noErr x y d r⟩
  · rintro ⟨msg, hpanic⟩
    by_contra! hfits
    obtain ⟨hd, hlt⟩ := hfits
    have hz := (hok (BitVec.ofNat 256 (r.div (x.toNat * y.toNat) d.toNat))).mpr
      ⟨hd, by rw [BitVec.toNat_ofNat, Nat.mod_eq_of_lt hlt]⟩
    exact ok_ne_panic (hz.symm.trans hpanic)
  · rcases (mulDiv_noErr x y d r).ok_or_panic with ⟨z, hz⟩ | hpanic
    · obtain ⟨hd, hzd⟩ := (hok z).mp hz
      have hlt := z.isLt
      rw [hzd] at hlt
      rcases h with h | h
      · exact absurd h hd
      · exact absurd hlt h.not_gt
    · exact hpanic

end ContractsStylus
