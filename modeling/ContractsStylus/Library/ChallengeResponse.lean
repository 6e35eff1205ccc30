import Mathlib.Data.ZMod.Basic
import Mathlib.GroupTheory.OrderOfElement
import Mathlib.Tactic.LinearCombination

/-!
# Challenges and responses

A key `A` is a multiple of a generator `B` of order `n`. For a commitment `R` and a challenge `k`
a response `s` is accepted when `-k A + s B = R`, with scalars that are integers modulo `n`. The
commitment and the challenge leave one response, a key of full order leaves one challenge for a
commitment and a response, and two challenges for one commitment give away the secret scalar.

## What is not here

There is no hash function, and no way to choose commitments or challenges. A signature scheme has a
challenge that is computed from the commitment, the key and a message, and an identification scheme
has one that somebody else draws. Both check the same equation, and what it determines has nothing
to do with where the challenge is from.

For the same reason nothing here is about probability. `Accepts.fork` is the algebra of special
soundness: from two accepted responses to different challenges the scalar of the key can be
computed. It is an equation and not a quotient, since the difference of the challenges need not be
invertible unless the order is prime.

## Scalars and multiples

A scalar is an integer modulo `n`, and a multiple of a point needs a number, which is the least
representative of the scalar. As the generator has order `n`, the multiple depends on the number
modulo `n` only, and every proof here first goes back to the scalars in this way.

## Main definitions

* `Accepts` — the equation that is checked

## Main results

* `Accepts.response_unique`, `Accepts.challenge_unique` — what the equation determines
* `Accepts.fork` — the scalar of the key, from two challenges
-/

namespace ContractsStylus

namespace ChallengeResponse

variable {G : Type*} [AddCommGroup G] {n : ℕ} {A B R : G} {a k k' s s' : ZMod n}

/-! ### Scalars modulo the order

The equation is written with numbers, as a program checks it. -/

/-- Multiples of an element depend on numbers modulo its order. -/
theorem nsmul_eq_nsmul_iff_natCast (hB : addOrderOf B = n) {x y : ℕ} :
    x • B = y • B ↔ (x : ZMod n) = y := by
  rw [nsmul_eq_nsmul_iff_modEq, hB, ZMod.natCast_eq_natCast_iff]

/-- **The equation that is checked.** -/
def Accepts (B A R : G) (k s : ZMod n) : Prop := (-k).val • A + s.val • B = R

/-! ### What the equation determines

The commitment and the challenge determine the response, and the commitment and the response
determine the challenge. Two challenges for one commitment are the remaining case. -/

namespace Accepts

/-- The left side of the equation, when the key is a multiple of the generator. -/
theorem nsmul_eq (h : Accepts B (a.val • B) R k s) : ((-k).val * a.val + s.val) • B = R := by
  rw [add_nsmul, mul_comm, mul_nsmul]
  exact h

variable [NeZero n]

/-- One commitment, one challenge, one response. -/
theorem response_unique (hB : addOrderOf B = n) (h : Accepts B A R k s)
    (h' : Accepts B A R k s') : s = s' := by
  have heq : s.val • B = s'.val • B := add_left_cancel (h.trans h'.symm)
  rw [nsmul_eq_nsmul_iff_natCast hB, ZMod.natCast_zmod_val, ZMod.natCast_zmod_val] at heq
  exact heq

/-- For a key of full order, one commitment and one response leave one challenge. -/
theorem challenge_unique (hA : addOrderOf A = n) (h : Accepts B A R k s)
    (h' : Accepts B A R k' s) : k = k' := by
  have heq : (-k).val • A = (-k').val • A := add_right_cancel (h.trans h'.symm)
  rw [nsmul_eq_nsmul_iff_natCast hA, ZMod.natCast_zmod_val, ZMod.natCast_zmod_val] at heq
  exact neg_injective heq

/-- **Two challenges for one commitment** give an equation for the scalar of the key. -/
theorem fork (hB : addOrderOf B = n) (h : Accepts B (a.val • B) R k s)
    (h' : Accepts B (a.val • B) R k' s') : (k - k') * a = s - s' := by
  have heq := h.nsmul_eq.trans h'.nsmul_eq.symm
  rw [nsmul_eq_nsmul_iff_natCast hB] at heq
  push_cast at heq
  simp only [ZMod.natCast_zmod_val] at heq
  linear_combination -heq

end Accepts

end ChallengeResponse

end ContractsStylus
