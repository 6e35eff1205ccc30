import ContractsStylus.Crypto.UintLaws

/-!
# Shifts and masks of big integers

A shift to the right goes over the limbs from the lowest one. Each limb is taken, leaving zero, and
its two parts are put into the limbs below it; where a part is shifted by all of the bits of a limb
it is zero. A shift to the left goes over the limbs from the highest one, and puts the parts into
the limbs above.

## Whole limbs and bits

The amount is split into whole limbs and the bits within one. A limb contributes to two limbs of the
result, and to the higher of them nothing if the amount is a multiple of the limb size: a shift by
all bits of a limb is a case of its own in the source, because the machine does not define it.

A shift by all the bits of the integer or more panics, which the statement has as an equivalence.

## Main definitions

* `Uint.shr`, `Uint.shl` — the shifts
* `Uint.bitand` — a mask

## Main results

* `Uint.exists_shr` — a shift to the right is a quotient
* `Uint.map_shl_shr` — both shifts, for all numbers of bits
* `Uint.toNat_bitand_mask` — the mask of the low bits is a remainder
-/

namespace ContractsStylus

namespace Limb

/-- `checked_shl`, and zero where that is `None`. -/
def checkedShlOrDefault (limb : Limb) (rhs : ℕ) : Limb := if rhs < 64 then limb <<< rhs else 0

/-- `checked_shr`, and zero where that is `None`. -/
def checkedShrOrDefault (limb : Limb) (rhs : ℕ) : Limb := if rhs < 64 then limb >>> rhs else 0

theorem checkedShlOrDefault_zero (rhs : ℕ) : checkedShlOrDefault 0 rhs = 0 := by
  rw [checkedShlOrDefault, show (0 : Limb) <<< rhs = 0 from BitVec.zero_shiftLeft _, ite_self]

theorem checkedShrOrDefault_zero (rhs : ℕ) : checkedShrOrDefault 0 rhs = 0 := by
  rw [checkedShrOrDefault, show (0 : Limb) >>> rhs = 0 from BitVec.zero_ushiftRight, ite_self]

theorem getLsbD_checkedShlOrDefault {t : ℕ} (ht : t < 64) (limb : Limb) (rhs : ℕ) :
    (limb.checkedShlOrDefault rhs).getLsbD t = (decide (rhs ≤ t) && limb.getLsbD (t - rhs)) := by
  rw [checkedShlOrDefault]
  split
  · rw [BitVec.getLsbD_shiftLeft, decide_eq_true ht, Bool.true_and, ← decide_not]
    simp only [not_lt]
  · rw [decide_eq_false (by omega), Bool.false_and]
    exact BitVec.getLsbD_zero

theorem getLsbD_checkedShrOrDefault (limb : Limb) (rhs t : ℕ) :
    (limb.checkedShrOrDefault rhs).getLsbD t = limb.getLsbD (rhs + t) := by
  rw [checkedShrOrDefault]
  split
  · exact BitVec.getLsbD_ushiftRight ..
  · rw [BitVec.getLsbD_of_ge limb _ (by omega)]
    exact BitVec.getLsbD_zero

/-- The bits that stay in a limb. -/
theorem toNat_checkedShrOrDefault {r : ℕ} (hr : r < 64) (limb : Limb) :
    (limb.checkedShrOrDefault r).toNat = limb.toNat / 2 ^ r := by
  rw [checkedShrOrDefault, if_pos hr, BitVec.toNat_ushiftRight, Nat.shiftRight_eq_div_pow]

/-- The bits that leave it, at the top of the limb below. -/
theorem toNat_checkedShlOrDefault {r : ℕ} (hr : r < 64) (limb : Limb) :
    (limb.checkedShlOrDefault (64 - r)).toNat = 2 ^ (64 - r) * (limb.toNat % 2 ^ r) := by
  have hbase : 2 ^ 64 = 2 ^ (64 - r) * 2 ^ r := by rw [← pow_add, Nat.sub_add_cancel hr.le]
  rw [checkedShlOrDefault]
  split
  · rw [BitVec.toNat_shiftLeft, Nat.shiftLeft_eq, mul_comm, hbase, Nat.mul_mod_mul_left]
  · rw [show r = 0 by omega, pow_zero, Nat.mod_one, mul_zero]
    rfl

end Limb

namespace Uint

open Limbs

variable {N : ℕ} {a b : Uint N}

/-- The parts of one limb of a shift to the right. -/
def shrStep (shift index : ℕ) (h : index < N) (self : Uint N) : Uint N :=
  let index2Shift := shift / 64
  let index1Shift := index2Shift + 1
  let limbRightShift := shift % 64
  let limbLeftShift := 64 - shift % 64
  -- take the limb, leaving zero
  let currentLimb := self.limbs[index]
  let self : Uint N := ⟨self.limbs.set index 0⟩
  let self : Uint N :=
    if index1Shift ≤ index then
      let index1 := index - index1Shift
      have : index1 < N := (Nat.sub_le _ _).trans_lt h
      ⟨self.limbs.set index1 (self.limbs[index1] |||
        Limb.checkedShlOrDefault currentLimb limbLeftShift)⟩
    else self
  if index2Shift ≤ index then
    let index2 := index - index2Shift
    have : index2 < N := (Nat.sub_le _ _).trans_lt h
    ⟨self.limbs.set index2 (self.limbs[index2] |||
      Limb.checkedShrOrDefault currentLimb limbRightShift)⟩
  else self

/-- `Shr<u32>`, which panics when no bit would be left. -/
def shr (self : Uint N) (rhs : ℕ) : Option (Uint N) :=
  if N * 64 > rhs then some (N.fold (shrStep rhs) self) else none

/-- The parts of one limb of a shift to the left. -/
def shlStep (shift index : ℕ) (h : index < N) (self : Uint N) : Uint N :=
  let index1Shift := shift / 64
  let index2Shift := index1Shift + 1
  let limbLeftShift := shift % 64
  let limbRightShift := 64 - shift % 64
  -- take the limb, leaving zero
  let currentLimb := self.limbs[index]
  let self : Uint N := ⟨self.limbs.set index 0⟩
  let index1 := index + index1Shift
  let self : Uint N :=
    if h1 : index1 < N then
      ⟨self.limbs.set index1 (self.limbs[index1] |||
        Limb.checkedShlOrDefault currentLimb limbLeftShift)⟩
    else self
  let index2 := index + index2Shift
  if h2 : index2 < N then
    ⟨self.limbs.set index2 (self.limbs[index2] |||
      Limb.checkedShrOrDefault currentLimb limbRightShift)⟩
  else self

/-- `Shl<u32>`, which panics when no bit would be left. -/
def shl (self : Uint N) (rhs : ℕ) : Option (Uint N) :=
  if N * 64 > rhs then some (N.foldRev (shlStep rhs) self) else none

/-- `BitAnd`. -/
def bitand (self rhs : Uint N) : Uint N :=
  N.fold (fun i _ self => ⟨self.limbs.set i (self.limbs[i] &&& rhs.limbs[i])⟩) self

/-! ### Shifts

What a limb of the result is made of, after some of the limbs have been passed, is a function of the
original limbs. The loop computes it because the limbs that it reads have not been written yet. -/

/-- The `i`-th limb, which is zero past the end. -/
def limbAt (a : Uint N) (i : ℕ) : Limb := if h : i < N then a.limbs[i] else 0

theorem limbAt_of_lt {i : ℕ} (hi : i < N) : a.limbAt i = a.limbs[i] := dif_pos hi

theorem toNat_limbAt (a : Uint N) (i : ℕ) : (a.limbAt i).toNat = digit a.limbs i := by
  rw [limbAt, digit]
  split <;> rfl

/-- What is put into the limb `j` by the limbs below `index`. -/
def shrPart (a : Uint N) (shift index j : ℕ) : Limb :=
  (if j + shift / 64 < index then (a.limbAt (j + shift / 64)).checkedShrOrDefault (shift % 64)
    else 0#64) |||
  if j + (shift / 64 + 1) < index then
    (a.limbAt (j + (shift / 64 + 1))).checkedShlOrDefault (64 - shift % 64)
  else 0#64

/-- One more limb below. -/
theorem shrPart_succ {i o j : ℕ} (part : Limb → Limb) :
    (if j + o < i + 1 then part (a.limbAt (j + o)) else 0#64) =
      (if j + o < i then part (a.limbAt (j + o)) else 0#64) |||
        if j + o = i then part (a.limbAt i) else 0#64 := by
  rcases Nat.lt_trichotomy (j + o) i with hlt | heq | hgt
  · rw [if_pos (by omega), if_pos hlt, if_neg hlt.ne, BitVec.or_zero]
  · rw [if_pos (by omega), if_neg (by omega), if_pos heq, heq, BitVec.zero_or]
  · rw [if_neg (by omega), if_neg (by omega), if_neg hgt.ne', BitVec.zero_or]

/-- A limb put into one place, or nowhere. -/
theorem getElem_ite_set {c : Prop} [Decidable c] {s : Uint N} {i j : ℕ} (hi : i < N) (hj : j < N)
    (x : Limb) : (if c then (⟨s.limbs.set i x⟩ : Uint N) else s).limbs[j] =
      if c ∧ j = i then x else s.limbs[j] := by
  by_cases hc : c
  · simp only [hc, if_true, true_and, Vector.getElem_set, eq_comm (a := j)]
  · simp only [hc, if_false, false_and]

/-- The limbs after one pass. -/
theorem getElem_shrStep {shift index j : ℕ} (h : index < N) (hj : j < N) (s : Uint N) :
    (shrStep shift index h s).limbs[j] = (if j = index then 0#64 else s.limbs[j]) |||
      (if j + (shift / 64 + 1) = index then
        s.limbs[index].checkedShlOrDefault (64 - shift % 64) else 0#64) |||
      if j + shift / 64 = index then s.limbs[index].checkedShrOrDefault (shift % 64) else 0#64 := by
  have hone : index - (shift / 64 + 1) < N := (Nat.sub_le _ _).trans_lt h
  have htwo : index - shift / 64 < N := (Nat.sub_le _ _).trans_lt h
  have htake : ∀ i (hi : i < N),
      (s.limbs.set index 0#64 h)[i] = if i = index then 0#64 else s.limbs[i] := by
    intro i hi
    rw [Vector.getElem_set]
    simp only [eq_comm (a := index)]
  have hfirst := fun i (hi : i < N) => getElem_ite_set (s := ⟨s.limbs.set index 0#64 h⟩)
    (c := shift / 64 + 1 ≤ index) hone hi ((s.limbs.set index 0#64 h)[index - (shift / 64 + 1)] |||
      s.limbs[index].checkedShlOrDefault (64 - shift % 64))
  refine (getElem_ite_set htwo hj _).trans ?_
  by_cases hright : j + shift / 64 = index
  · have hat : index - shift / 64 = j := by omega
    have hleft : ¬j + (shift / 64 + 1) = index := by omega
    rw [if_pos ⟨by omega, hat.symm⟩, if_pos hright, if_neg hleft, BitVec.or_zero]
    simp only [hat]
    refine congrArg (· ||| _) ((hfirst j hj).trans ?_)
    rw [if_neg (fun hmem => hleft (by omega)), htake]
  · rw [if_neg (fun hmem => hright (by omega)), if_neg hright, BitVec.or_zero]
    refine (hfirst j hj).trans ?_
    by_cases hleft : j + (shift / 64 + 1) = index
    · have hat : index - (shift / 64 + 1) = j := by omega
      rw [if_pos ⟨by omega, hat.symm⟩, if_pos hleft]
      simp only [hat]
      rw [htake]
    · rw [if_neg (fun hmem => hleft (by omega)), if_neg hleft, BitVec.or_zero, htake]

/-- **One limb**: its parts are added to those of the limbs below it, and the limbs above stay. -/
theorem shrStep_spec {shift index : ℕ} (h : index < N) {s : Uint N}
    (hlow : ∀ (j : ℕ) (hj : j < N), j < index → s.limbs[j] = a.shrPart shift index j)
    (hhigh : ∀ (j : ℕ) (hj : j < N), index ≤ j → s.limbs[j] = a.limbs[j]) :
    (∀ (j : ℕ) (hj : j < N), j < index + 1 →
      (shrStep shift index h s).limbs[j] = a.shrPart shift (index + 1) j) ∧
    ∀ (j : ℕ) (hj : j < N), index + 1 ≤ j → (shrStep shift index h s).limbs[j] = a.limbs[j] := by
  have hcurrent : s.limbs[index] = a.limbAt index := by
    rw [hhigh index h le_rfl, limbAt_of_lt h]
  refine ⟨fun j hj hlt => ?_, fun j hj hle => ?_⟩
  · have hbase : (if j = index then 0#64 else s.limbs[j]) = a.shrPart shift index j := by
      split
      · rename_i heq
        rw [shrPart, if_neg (by omega), if_neg (by omega)]
        rfl
      · exact hlow j hj (by omega)
    rw [getElem_shrStep, hbase, hcurrent, shrPart, shrPart]
    have hright := shrPart_succ (a := a) (i := index) (j := j) (o := shift / 64)
      (fun x => x.checkedShrOrDefault (shift % 64))
    have hleft := shrPart_succ (a := a) (i := index) (j := j) (o := shift / 64 + 1)
      (fun x => x.checkedShlOrDefault (64 - shift % 64))
    rw [show (if j + shift / 64 < index + 1 then _ else 0#64) = _ from hright,
      show (if j + (shift / 64 + 1) < index + 1 then _ else 0#64) = _ from hleft]
    ac_rfl
  · rw [getElem_shrStep, if_neg (by omega), if_neg (by omega), if_neg (by omega), hhigh j hj
      (by omega), BitVec.or_zero, BitVec.or_zero]

/-- The part that stays in a limb, and the part that comes from the limb above. -/
theorem toNat_shrPart (a : Uint N) (shift j : ℕ) :
    (a.shrPart shift N j).toNat = digit a.limbs (shift / 64 + j) / 2 ^ (shift % 64) +
      2 ^ (64 - shift % 64) * (digit a.limbs (shift / 64 + (j + 1)) % 2 ^ (shift % 64)) := by
  have hr : shift % 64 < 64 := Nat.mod_lt _ (by norm_num)
  have hlimb : ∀ (i : ℕ) (part : Limb → Limb), part 0#64 = 0#64 →
      (if i < N then part (a.limbAt i) else 0#64) = part (a.limbAt i) := by
    intro i part hpart
    split
    · rfl
    · rename_i hi
      rw [limbAt, dif_neg hi]
      exact hpart.symm
  have hlt : digit a.limbs (shift / 64 + j) / 2 ^ (shift % 64) < 2 ^ (64 - shift % 64) := by
    rw [Nat.div_lt_iff_lt_mul (Nat.two_pow_pos _), ← pow_add, Nat.sub_add_cancel hr.le]
    exact digit_lt
  have hright := hlimb (j + shift / 64) (fun x => x.checkedShrOrDefault (shift % 64))
    (Limb.checkedShrOrDefault_zero _)
  have hleft := hlimb (j + (shift / 64 + 1)) (fun x => x.checkedShlOrDefault (64 - shift % 64))
    (Limb.checkedShlOrDefault_zero _)
  have hindex : j + (shift / 64 + 1) = shift / 64 + (j + 1) := by omega
  rw [shrPart, hright, hleft, BitVec.toNat_or, Limb.toNat_checkedShrOrDefault hr,
    Limb.toNat_checkedShlOrDefault hr, toNat_limbAt, toNat_limbAt, add_comm j (shift / 64), hindex,
    Nat.or_comm, ← Nat.two_pow_add_eq_or_of_lt hlt, add_comm]

/-- **A shift to the right is a quotient.** -/
theorem exists_shr {rhs : ℕ} (h : rhs < N * 64) :
    ∃ result, a.shr rhs = some result ∧ result.toNat = a.toNat / 2 ^ rhs := by
  refine ⟨_, if_pos h, ?_⟩
  obtain ⟨hlimbs, -⟩ := fold_induction (n := N) (s := a) (f := shrStep rhs)
    (fun i s => (∀ (j : ℕ) (hj : j < N), j < i → s.limbs[j] = a.shrPart rhs i j) ∧
      ∀ (j : ℕ) (hj : j < N), i ≤ j → s.limbs[j] = a.limbs[j])
    ⟨fun j _ hlt => absurd hlt j.not_lt_zero, fun _ _ _ => rfl⟩
    fun i hi s hs => shrStep_spec hi hs.1 hs.2
  have hr : rhs % 64 < 64 := Nat.mod_lt _ (by norm_num)
  have hbase : 2 ^ 64 = 2 ^ (64 - rhs % 64) * 2 ^ (rhs % 64) := by
    rw [← pow_add, Nat.sub_add_cancel hr.le]
  have hzero : ∀ i, N ≤ i → digit a.limbs i = 0 := fun i hi => dif_neg (by omega)
  have hdigits : (N.fold (shrStep rhs) a).toNat = positional (2 ^ 64)
      (fun j => digit a.limbs (rhs / 64 + j) / 2 ^ (rhs % 64) +
        2 ^ (64 - rhs % 64) * (digit a.limbs (rhs / 64 + (j + 1)) % 2 ^ (rhs % 64))) N := by
    refine positional_congr fun j hj => ?_
    rw [digit_of_lt hj, hlimbs j hj hj, toNat_shrPart]
  have hdrop : positional (2 ^ 64) (fun j => digit a.limbs (rhs / 64 + j)) N =
      a.toNat / (2 ^ 64) ^ (rhs / 64) :=
    positional_drop (fun _ _ => digit_lt) hzero (Nat.two_pow_pos _) _
  have hshift := positional_shift (d := fun j => digit a.limbs (rhs / 64 + j)) (n := N)
    (h := 2 ^ (64 - rhs % 64)) (k := 2 ^ (rhs % 64))
  have hpow : 2 ^ rhs = (2 ^ 64) ^ (rhs / 64) * 2 ^ (rhs % 64) := by
    rw [← pow_mul, ← pow_add, Nat.div_add_mod]
  rw [← hbase, hzero _ (Nat.le_add_left _ _), Nat.zero_mod, mul_zero, add_zero, add_zero,
    ← hdigits, hdrop] at hshift
  rw [hpow, ← Nat.div_div_eq_div_mul, ← hshift, Nat.mul_add_div (Nat.two_pow_pos _),
    Nat.div_eq_of_lt (Nat.mod_lt _ (Nat.two_pow_pos _)), add_zero]

/-! ### Shifts to the left

A shift to the left loses bits, so it is compared with the product bit by bit. -/

/-- A limb put into one place, when there is such a place. -/
theorem getElem_dite_set {s : Uint N} {i j : ℕ} (hj : j < N) (x : i < N → Limb) :
    (if h : i < N then (⟨s.limbs.set i (x h)⟩ : Uint N) else s).limbs[j] =
      if h : j = i then x (h ▸ hj) else s.limbs[j] := by
  split
  · rename_i hi
    rw [Vector.getElem_set]
    by_cases hij : i = j
    · rw [if_pos hij, dif_pos hij.symm]
    · rw [if_neg hij, dif_neg (Ne.symm hij)]
  · rename_i hi
    have hne : ¬j = i := by
      rintro rfl
      exact hi hj
    simp only [hne, dif_neg, not_false_eq_true]

/-- The limbs after one pass. -/
theorem getElem_shlStep {shift index j : ℕ} (h : index < N) (hj : j < N) (s : Uint N) :
    (shlStep shift index h s).limbs[j] = (if j = index then 0#64 else s.limbs[j]) |||
      (if j = index + shift / 64 then s.limbs[index].checkedShlOrDefault (shift % 64) else 0#64) |||
      if j = index + (shift / 64 + 1) then
        s.limbs[index].checkedShrOrDefault (64 - shift % 64) else 0#64 := by
  have htake : ∀ i (hi : i < N),
      (s.limbs.set index 0#64 h)[i] = if i = index then 0#64 else s.limbs[i] := by
    intro i hi
    rw [Vector.getElem_set]
    simp only [eq_comm (a := index)]
  refine (getElem_dite_set hj _).trans ?_
  by_cases hright : j = index + (shift / 64 + 1)
  · have hleft : ¬j = index + shift / 64 := by omega
    rw [dif_pos hright, if_pos hright, if_neg hleft, BitVec.or_zero, ← htake j hj]
    subst hright
    refine congrArg (· ||| _) ((getElem_dite_set hj _).trans ?_)
    exact dif_neg hleft
  · rw [dif_neg hright, if_neg hright, BitVec.or_zero]
    refine (getElem_dite_set hj _).trans ?_
    by_cases hleft : j = index + shift / 64
    · rw [dif_pos hleft, if_pos hleft, ← htake j hj]
      subst hleft
      rfl
    · rw [dif_neg hleft, if_neg hleft, BitVec.or_zero]
      exact htake j hj

/-- What is put into the limb `j` by the limbs from `index` on. -/
def shlPart (a : Uint N) (shift index j : ℕ) : Limb :=
  (if index + shift / 64 ≤ j then (a.limbAt (j - shift / 64)).checkedShlOrDefault (shift % 64)
    else 0#64) |||
  if index + (shift / 64 + 1) ≤ j then
    (a.limbAt (j - (shift / 64 + 1))).checkedShrOrDefault (64 - shift % 64)
  else 0#64

/-- One more limb above. -/
theorem shlPart_succ {i o j : ℕ} (part : Limb → Limb) :
    (if i + o ≤ j then part (a.limbAt (j - o)) else 0#64) =
      (if i + 1 + o ≤ j then part (a.limbAt (j - o)) else 0#64) |||
        if j = i + o then part (a.limbAt i) else 0#64 := by
  rcases Nat.lt_trichotomy j (i + o) with hlt | heq | hgt
  · rw [if_neg (by omega), if_neg (by omega), if_neg hlt.ne, BitVec.or_zero]
  · rw [if_pos heq.ge, if_neg (by omega), if_pos heq, heq, Nat.add_sub_cancel, BitVec.zero_or]
  · rw [if_pos hgt.le, if_pos (by omega), if_neg hgt.ne', BitVec.or_zero]

/-- **One limb**: its parts are added to those of the limbs above it, and the limbs below stay. -/
theorem shlStep_spec {shift index : ℕ} (h : index < N) {s : Uint N}
    (hhigh : ∀ (j : ℕ) (hj : j < N), index + 1 ≤ j → s.limbs[j] = a.shlPart shift (index + 1) j)
    (hlow : ∀ (j : ℕ) (hj : j < N), j < index + 1 → s.limbs[j] = a.limbs[j]) :
    (∀ (j : ℕ) (hj : j < N), index ≤ j →
      (shlStep shift index h s).limbs[j] = a.shlPart shift index j) ∧
    ∀ (j : ℕ) (hj : j < N), j < index → (shlStep shift index h s).limbs[j] = a.limbs[j] := by
  have hcurrent : s.limbs[index] = a.limbAt index := by
    rw [hlow index h (Nat.lt_succ_self _), limbAt_of_lt h]
  refine ⟨fun j hj hle => ?_, fun j hj hlt => ?_⟩
  · have hbase : (if j = index then 0#64 else s.limbs[j]) = a.shlPart shift (index + 1) j := by
      split
      · rename_i heq
        rw [shlPart, if_neg (by omega), if_neg (by omega)]
        rfl
      · exact hhigh j hj (by omega)
    have hleft := shlPart_succ (a := a) (i := index) (j := j) (o := shift / 64)
      (fun x => x.checkedShlOrDefault (shift % 64))
    have hright := shlPart_succ (a := a) (i := index) (j := j) (o := shift / 64 + 1)
      (fun x => x.checkedShrOrDefault (64 - shift % 64))
    rw [getElem_shlStep, hbase, hcurrent, shlPart, shlPart,
      show (if index + shift / 64 ≤ j then _ else 0#64) = _ from hleft,
      show (if index + (shift / 64 + 1) ≤ j then _ else 0#64) = _ from hright]
    ac_rfl
  · rw [getElem_shlStep, if_neg (by omega), if_neg (by omega), if_neg (by omega), hlow j hj
      (by omega), BitVec.or_zero, BitVec.or_zero]

theorem testBit_eq_limbAt (a : Uint N) {t : ℕ} (ht : t < 64) (j : ℕ) :
    a.toNat.testBit (64 * j + t) = (a.limbAt j).getLsbD t := by
  rw [← BitVec.testBit_toNat, toNat_limbAt]
  rcases Nat.lt_or_ge j N with hj | hj
  · rw [digit_of_lt hj, ← a.toNat_div_mod hj, Nat.testBit_mod_two_pow, Nat.testBit_div_two_pow,
      decide_eq_true ht, Bool.true_and, add_comm]
  · rw [digit, dif_neg hj.not_gt, Nat.zero_testBit]
    exact Nat.testBit_lt_two_pow (a.toNat_lt.trans_le (Nat.pow_le_pow_right two_pos (by omega)))

/-- The bits of a limb come from one limb or from the one below it. -/
theorem getLsbD_shlPart (a : Uint N) (shift j : ℕ) {t : ℕ} (ht : t < 64) :
    (a.shlPart shift 0 j).getLsbD t =
      (decide (shift ≤ 64 * j + t) && a.toNat.testBit (64 * j + t - shift)) := by
  have hr : shift % 64 < 64 := Nat.mod_lt _ (by norm_num)
  rw [shlPart, BitVec.getLsbD_or, apply_ite (BitVec.getLsbD · t), apply_ite (BitVec.getLsbD · t),
    Limb.getLsbD_checkedShlOrDefault ht, Limb.getLsbD_checkedShrOrDefault, BitVec.getLsbD_zero]
  rcases Nat.lt_or_ge t (shift % 64) with hlow | hhigh
  · have hlt : 64 - shift % 64 + t < 64 := by omega
    rw [decide_eq_false hlow.not_ge, Bool.false_and, ite_self, Bool.false_or,
      ← a.testBit_eq_limbAt hlt]
    by_cases hle : shift ≤ 64 * j + t
    · rw [if_pos (by omega), decide_eq_true hle, Bool.true_and,
        show 64 * (j - (shift / 64 + 1)) + (64 - shift % 64 + t) = 64 * j + t - shift by omega]
    · rw [if_neg (by omega), decide_eq_false hle, Bool.false_and]
  · have hout : (a.limbAt (j - (shift / 64 + 1))).getLsbD (64 - shift % 64 + t) = false :=
      BitVec.getLsbD_of_ge _ _ (by omega)
    have hlt : t - shift % 64 < 64 := by omega
    rw [decide_eq_true hhigh, Bool.true_and, hout, ite_self, Bool.or_false,
      ← a.testBit_eq_limbAt hlt]
    by_cases hle : shift ≤ 64 * j + t
    · rw [if_pos (by omega), decide_eq_true hle, Bool.true_and,
        show 64 * (j - shift / 64) + (t - shift % 64) = 64 * j + t - shift by omega]
    · rw [if_neg (by omega), decide_eq_false hle, Bool.false_and]

/-- **A shift to the left is a product**, of which the bits that fit are left. -/
theorem exists_shl {rhs : ℕ} (h : rhs < N * 64) :
    ∃ result, a.shl rhs = some result ∧
      result.toNat = a.toNat * 2 ^ rhs % 2 ^ (64 * N) := by
  refine ⟨_, if_pos h, ?_⟩
  obtain ⟨hlimbs, -⟩ := foldRev_induction (n := N) (s := a) (f := shlStep rhs)
    (fun i s => (∀ (j : ℕ) (hj : j < N), i ≤ j → s.limbs[j] = a.shlPart rhs i j) ∧
      ∀ (j : ℕ) (hj : j < N), j < i → s.limbs[j] = a.limbs[j])
    ⟨fun j hj hle => absurd hj hle.not_gt, fun _ _ _ => rfl⟩
    fun i hi s hs => shlStep_spec hi hs.1 hs.2
  refine Nat.eq_of_testBit_eq fun p => ?_
  rw [Nat.testBit_mod_two_pow, Nat.testBit_mul_two_pow]
  rcases Nat.lt_or_ge p (64 * N) with hp | hp
  · have ht : p % 64 < 64 := Nat.mod_lt _ (by norm_num)
    have hj : p / 64 < N := Nat.div_lt_of_lt_mul hp
    have hbit := (N.foldRev (shlStep rhs) a).testBit_eq_limbAt ht (p / 64)
    rw [limbAt_of_lt hj, hlimbs _ hj (Nat.zero_le _), getLsbD_shlPart _ _ _ ht,
      Nat.div_add_mod] at hbit
    rw [hbit, decide_eq_true hp, Bool.true_and]
  · rw [decide_eq_false hp.not_gt, Bool.false_and]
    exact Nat.testBit_lt_two_pow ((toNat_lt _).trans_le (Nat.pow_le_pow_right two_pos hp))

/-- **Shifts multiply and divide by powers of two**, also by none of the bits of a limb and by all
of them; a shift by as many bits as there are, or by more, panics, and no other shift does. -/
theorem map_shl_shr (a : Uint N) (k : ℕ) :
    ((a.shl k).map toNat = if k < 64 * N then some (a.toNat * 2 ^ k % 2 ^ (64 * N)) else none) ∧
    ((a.shr k).map toNat = if k < 64 * N then some (a.toNat / 2 ^ k) else none) := by
  by_cases hk : k < 64 * N
  · obtain ⟨l, hl, hleft⟩ := exists_shl (a := a) (show k < N * 64 by omega)
    obtain ⟨r, hr, hright⟩ := exists_shr (a := a) (show k < N * 64 by omega)
    rw [hl, hr, Option.map_some, Option.map_some, hleft, hright, if_pos hk, if_pos hk]
    exact ⟨rfl, rfl⟩
  · have hbits : ¬N * 64 > k := by omega
    rw [shl, shr, if_neg hbits, if_neg hbits, if_neg hk, if_neg hk]
    exact ⟨rfl, rfl⟩

/-! ### Masks -/

theorem getElem_bitand {j : ℕ} (hj : j < N) :
    (a.bitand b).limbs[j] = a.limbs[j] &&& b.limbs[j] := by
  have hinv : ∀ (k : ℕ) (hk : k < N),
      (a.bitand b).limbs[k] = if k < N then a.limbs[k] &&& b.limbs[k] else a.limbs[k] := by
    refine fold_induction (fun i (s : Uint N) => ∀ (k : ℕ) (hk : k < N),
      s.limbs[k] = if k < i then a.limbs[k] &&& b.limbs[k] else a.limbs[k])
      (fun k _ => (if_neg k.not_lt_zero).symm) fun i hi s hs k hk => ?_
    rw [Vector.getElem_set]
    split
    · rename_i hik
      subst hik
      rw [if_pos (Nat.lt_succ_self _), hs _ hi, if_neg (lt_irrefl _)]
    · rw [hs k hk]
      exact if_congr (by omega) rfl rfl
  rw [hinv j hj, if_pos hj]

/-- Bit by bit. -/
theorem toNat_bitand (a b : Uint N) : (a.bitand b).toNat = a.toNat &&& b.toNat := by
  refine Nat.eq_of_testBit_eq fun i => ?_
  rw [Nat.testBit_and, ← getBit_eq, ← getBit_eq, ← getBit_eq, getBit, getBit, getBit]
  split
  · rfl
  · have hmod : i - 64 * (i / 64) < 64 := by omega
    rw [and_mask_ne_zero _ hmod, and_mask_ne_zero _ hmod, and_mask_ne_zero _ hmod,
      getElem_bitand, BitVec.getLsbD_and]

/-- **The mask of the low bits is a remainder.** -/
theorem toNat_bitand_mask {m : ℕ} (h : b.toNat = 2 ^ m - 1) :
    (a.bitand b).toNat = a.toNat % 2 ^ m := by
  rw [toNat_bitand, h, Nat.and_two_pow_sub_one_eq_mod]

end Uint

end ContractsStylus
