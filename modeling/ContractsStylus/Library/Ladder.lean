import Mathlib.Algebra.Group.Defs
import Mathlib.Data.List.Induction
import Mathlib.Data.Nat.Bitwise
import Mathlib.Tactic.Ring

/-!
# Ladders

A loop over the binary digits of a number, the highest first, that doubles at each digit and adds
one more where the digit is one. Multiples of a group element and powers are computed this way,
and leading zeros change nothing.

## Digits in, number out

The digits that a loop has read so far are the digits of a number, and every further digit doubles
it and adds one or not. `ladder_induction` is the invariant rule for this: an invariant of a state
and a number that holds of zero, and is kept by a step. What the state is does not matter, nor
whether an addition is skipped for a zero digit or is done and thrown away.

Nothing depends on how many digits there are. An algorithm that skips leading zeros and one that
does not compute the same, by `ofBitsBe_dropWhile`, and the digits of a fixed width are those of the
remainder, by `ofBitsBe_bitsBe`; a width that is too small is an arithmetic fact about the result
and not a hypothesis.

## Representations

`ladder_nsmul` is about elements that are represented, each perhaps in many ways, and it asks for a
relation between representations and elements and not for a function. The operations need to be
right only as far as the relation sees them.

## Main definitions

* `ofBitsBe` — the number with given binary digits
* `bitsBe` — the lowest binary digits of a number

## Main results

* `ladder_induction` — what a loop over digits has reached
* `ladder_nsmul`, `ladder_pow` — multiples and powers
* `ofBitsBe_bitsBe` — the digits of a number
* `ofBitsBe_dropWhile` — leading zeros
-/

namespace ContractsStylus

/-- The number whose binary digits are `bits`, the highest first. -/
def ofBitsBe (bits : List Bool) : ℕ := bits.foldl (fun n bit => 2 * n + bit.toNat) 0

/-- The lowest `w` binary digits of `n`, the highest first. -/
def bitsBe (w n : ℕ) : List Bool := (List.range w).reverse.map n.testBit

@[simp] theorem length_bitsBe (w n : ℕ) : (bitsBe w n).length = w := by simp [bitsBe]

theorem ofBitsBe_concat (bits : List Bool) (bit : Bool) :
    ofBitsBe (bits ++ [bit]) = 2 * ofBitsBe bits + bit.toNat := by
  rw [ofBitsBe, List.foldl_append]
  rfl

/-- **A loop over the digits of a number** has reached `n` where the digits read so far are those
of `n`. -/
theorem ladder_induction {σ : Type} {step : σ → Bool → σ} {s : σ} (Inv : σ → ℕ → Prop)
    (hs : Inv s 0)
    (hstep : ∀ (t : σ) (n : ℕ) (bit : Bool), Inv t n → Inv (step t bit) (2 * n + bit.toNat))
    (bits : List Bool) : Inv (bits.foldl step s) (ofBitsBe bits) := by
  induction bits using List.reverseRecOn with
  | nil => exact hs
  | append_singleton bits bit ih =>
    rw [List.foldl_append, ofBitsBe_concat]
    exact hstep _ _ _ ih

/-- The high digits and the low digits. -/
theorem ofBitsBe_append (high low : List Bool) :
    ofBitsBe (high ++ low) = ofBitsBe high * 2 ^ low.length + ofBitsBe low := by
  induction low using List.reverseRecOn with
  | nil =>
    rw [List.append_nil, List.length_nil, pow_zero, mul_one]
    exact (Nat.add_zero _).symm
  | append_singleton low bit ih =>
    rw [← List.append_assoc, ofBitsBe_concat, ih, ofBitsBe_concat, List.length_append,
      List.length_singleton, pow_succ]
    ring

theorem ofBitsBe_cons (bit : Bool) (bits : List Bool) :
    ofBitsBe (bit :: bits) = bit.toNat * 2 ^ bits.length + ofBitsBe bits := by
  rw [← List.singleton_append, ofBitsBe_append]
  cases bit <;> rfl

/-- **Leading zeros** do not change the number. -/
theorem ofBitsBe_dropWhile (bits : List Bool) :
    ofBitsBe (bits.dropWhile fun bit => !bit) = ofBitsBe bits := by
  induction bits with
  | nil => rfl
  | cons bit bits ih =>
    cases bit with
    | true => rfl
    | false =>
      rw [ofBitsBe_cons, Bool.toNat_false, zero_mul, zero_add, ← ih]
      rfl

/-- **Double and add.** A loop over the digits of `n` without their leading zeros computes `n`
times an element, on whatever represents elements. -/
theorem ladder_nsmul {G σ : Type} [AddMonoid G] {represents : σ → G → Prop} {zero : σ}
    {double add : σ → σ} {a : G} (hzero : represents zero 0)
    (hdouble : ∀ r c, represents r c → represents (double r) (c + c))
    (hadd : ∀ r c, represents r c → represents (add r) (c + a)) (bits : List Bool) :
    represents ((bits.dropWhile fun bit => !bit).foldl
      (fun r bit => if bit then add (double r) else double r) zero) (ofBitsBe bits • a) := by
  rw [← ofBitsBe_dropWhile bits]
  refine ladder_induction (fun r n => represents r (n • a)) ?_ ?_ _
  · rw [zero_nsmul]
    exact hzero
  · intro r n bit hr
    have htwice := hdouble r _ hr
    rw [← add_nsmul, ← two_mul] at htwice
    cases bit with
    | true =>
      rw [if_pos rfl, Bool.toNat_true, succ_nsmul]
      exact hadd _ _ htwice
    | false => exact htwice

/-- **Square and multiply**, with nothing instead of one at first. -/
theorem ladder_pow {M : Type} [Monoid M] {x : M} {step : Option M → Bool → Option M}
    (hnone : step none false = none) (hfirst : step none true = some x)
    (hsquare : ∀ r, step (some r) false = some (r * r))
    (hmul : ∀ r, step (some r) true = some (r * r * x)) (bits : List Bool) :
    ((bits.dropWhile fun bit => !bit).foldl step none).getD 1 = x ^ ofBitsBe bits := by
  suffices h : ∀ bits : List Bool, bits.foldl step none =
      if ofBitsBe bits = 0 then none else some (x ^ ofBitsBe bits) by
    rw [h, ofBitsBe_dropWhile]
    split
    · rename_i hzero
      rw [hzero, pow_zero, Option.getD_none]
    · rfl
  refine fun bits => ladder_induction
    (fun r n => r = if n = 0 then none else some (x ^ n)) rfl ?_ bits
  rintro r n bit rfl
  by_cases hn : n = 0
  · subst hn
    cases bit with
    | true => simpa using hfirst
    | false => exact hnone
  · rw [if_neg hn, if_neg (by omega)]
    cases bit with
    | true => rw [hmul, ← pow_add, ← two_mul, ← pow_succ, Bool.toNat_true]
    | false => rw [hsquare, ← pow_add, ← two_mul, Bool.toNat_false, add_zero]

theorem bitsBe_succ (w n : ℕ) : bitsBe (w + 1) n = n.testBit w :: bitsBe w n := by
  rw [bitsBe, List.range_succ, List.reverse_append, List.map_append]
  rfl

/-- **The digits of a number** are those of its remainder. -/
theorem ofBitsBe_bitsBe (w n : ℕ) : ofBitsBe (bitsBe w n) = n % 2 ^ w := by
  induction w with
  | zero => rw [pow_zero, Nat.mod_one]; rfl
  | succ w ih =>
    rw [bitsBe_succ, ofBitsBe_cons, length_bitsBe, ih, Nat.mod_pow_succ, Nat.toNat_testBit,
      mul_comm, add_comm]

end ContractsStylus
