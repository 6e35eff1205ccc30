import Mathlib.Algebra.Order.Ring.Nat
import Mathlib.Tactic.Linarith

/-!
# Linear vesting

A fund that receives an asset at any time and pays out what has vested. The schedule is a function
of everything that was ever received, whether it was paid out or not: what comes in late vests as
if it had been there from the beginning. It grows with the time and with what is received, and that
is why what was paid out earlier is never more than what has vested.

## The schedule

The schedule is a function of the time and of what was ever received, and it does not know what was
paid out. The linear part is a product divided by the duration, rounded down; a duration of zero
means that everything vests at the start, and no division by it takes place.

## Books

An `Account` has what was released, what is held and what was received, and two laws: nothing
disappears, and no more was released than has vested. The second one is what time and receipts
keep, by monotonicity, and it is the reason why what can be released now is there to be released.
There is no beneficiary here and no transfer. Whether a payment succeeds is not a matter of the
books, and a fund whose payments may fail has to undo them as a whole.

## Main definitions

* `Vesting.schedule` — what has vested at some time
* `Vesting.Account` — the books of a fund

## Main results

* `Vesting.schedule_mono` — the schedule grows with the receipts and with the time
* `Vesting.Account.receive`, `advance`, `release` — the books stay in order
-/

namespace Vesting

/-- What has vested at the time `now` of what was received. Nothing has before `start`, everything
has after `duration`, and in between it is a linear part, rounded down. -/
def schedule (start duration received now : ℕ) : ℕ :=
  if now < start then 0
  else if start + duration ≤ now then received
  else received * (now - start) / duration

variable {start duration received received' released balance now now' amount : ℕ}

theorem schedule_of_lt (h : now < start) : schedule start duration received now = 0 := if_pos h

theorem schedule_of_le (h : start + duration ≤ now) :
    schedule start duration received now = received := by
  rw [schedule, if_neg (by omega), if_pos h]

/-- Not more vests than is there. -/
theorem schedule_le : schedule start duration received now ≤ received := by
  rw [schedule]
  split
  · exact Nat.zero_le _
  · split
    · exact le_rfl
    · refine Nat.div_le_of_le_mul ?_
      rw [Nat.mul_comm duration]
      exact Nat.mul_le_mul_left _ (by omega)

/-- **The schedule grows** with what is received and with the time. -/
theorem schedule_mono (hreceived : received ≤ received') (hnow : now ≤ now') :
    schedule start duration received now ≤ schedule start duration received' now' := by
  by_cases hstart : now < start
  · rw [schedule_of_lt hstart]
    exact Nat.zero_le _
  · by_cases hend : start + duration ≤ now'
    · rw [schedule_of_le hend]
      exact schedule_le.trans hreceived
    · rw [schedule, schedule, if_neg hstart, if_neg (by omega), if_neg (by omega), if_neg hend]
      exact Nat.div_le_div_right (Nat.mul_le_mul hreceived (by omega))

/-- The books of a fund: what it has is what it received and has not released, and it has not
released more than has vested. -/
structure Account (start duration now released balance received : ℕ) : Prop where
  total : released + balance = received
  released_le : released ≤ schedule start duration received now

namespace Account

/-- The fund receives something. -/
theorem receive (h : Account start duration now released balance received) (amount : ℕ) :
    Account start duration now released (balance + amount) (received + amount) where
  total := by
    rw [← h.total]
    exact (Nat.add_assoc ..).symm
  released_le := h.released_le.trans (schedule_mono (Nat.le_add_right _ _) le_rfl)

/-- Time passes. -/
theorem advance (h : Account start duration now released balance received) (hnow : now ≤ now') :
    Account start duration now' released balance received where
  total := h.total
  released_le := h.released_le.trans (schedule_mono le_rfl hnow)

/-- What can be released is there. -/
theorem amount_le (h : Account start duration now released balance received)
    (hamount : amount + released = schedule start duration received now) : amount ≤ balance := by
  have hle := @schedule_le start duration received now
  have htotal := h.total
  omega

/-- Everything that has vested is released. -/
theorem release (h : Account start duration now released balance received)
    (hamount : amount + released = schedule start duration received now) :
    Account start duration now (released + amount) (balance - amount) received where
  total := by
    have hle := h.amount_le hamount
    have htotal := h.total
    omega
  released_le := by
    rw [Nat.add_comm]
    exact hamount.le

end Account

end Vesting
