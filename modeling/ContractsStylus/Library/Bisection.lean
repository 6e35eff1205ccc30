import Mathlib.Data.List.Basic
import Mathlib.Algebra.Order.Group.Nat

/-!
# Bisection

A search for the number at which a predicate begins to hold. The interval that is left is split
at some number between its ends, and the half in which the predicate changes is kept. A search
that halves the interval is one that always splits in the middle, but the split does not matter
here.

## A number, not a position

What a search is for is the number `n` at which the predicate changes, and the invariant names it
from the start: `Separates p low high n` speaks of the interval that is left and of an `n` that does
not change in the course of the search. A loop then needs no argument about what it has discarded.
It proves its result from the inside out: at the end the interval is empty and `n` is its end, and
every split, taken backwards, makes the interval larger again.

That there is such an `n` needs the predicate to be monotone only where a split looks at it. A
caller with a sorted list gets that from the order, and may split wherever it likes: in the middle,
or at a guess that is close to the end.

## From numbers to lists

The two lemmas at the end translate the number into what a reader of a list wants to hear: the
first element with a property, and the last one without it.

## Main definitions

* `Separates p low high n` — `p` fails below `n` and holds from `n` on, between `low` and `high`

## Main results

* `Separates.of_left`, `Separates.of_right` — the two ways to go on from a split
* `Separates.find?_eq`, `Separates.find?_reverse_eq` — a list split where `p` begins to hold
-/

/-- Between `low` and `high`, the predicate fails below `n` and holds from `n` on. -/
structure Separates (p : ℕ → Prop) (low high n : ℕ) : Prop where
  le_low : low ≤ n
  le_high : n ≤ high
  below : ∀ i, low ≤ i → i < n → ¬p i
  above : ∀ i, n ≤ i → i < high → p i

namespace Separates

variable {p : ℕ → Prop} {low mid high n : ℕ}

/-- Nothing is left to search. -/
theorem refl (n : ℕ) : Separates p n n n :=
  ⟨le_rfl, le_rfl, fun _ hle hlt => absurd hlt (not_lt.mpr hle),
    fun _ hle hlt => absurd hlt (not_lt.mpr hle)⟩

/-- Where the predicate holds, go on to the left. -/
theorem of_left (h : Separates p low mid n) (hle : mid ≤ high)
    (hmid : ∀ i, mid ≤ i → i < high → p i) : Separates p low high n where
  le_low := h.le_low
  le_high := h.le_high.trans hle
  below := h.below
  above i hi hlt := by
    rcases lt_or_ge i mid with hmi | hmi
    · exact h.above i hi hmi
    · exact hmid i hmi hlt

/-- Where it fails, go on to the right. -/
theorem of_right (h : Separates p (mid + 1) high n) (hle : low ≤ mid)
    (hmid : ∀ i, low ≤ i → i ≤ mid → ¬p i) : Separates p low high n where
  le_low := hle.trans ((Nat.le_succ mid).trans h.le_low)
  le_high := h.le_high
  below i hi hlt := by
    rcases lt_or_ge mid i with hmi | hmi
    · exact h.below i hmi hlt
    · exact hmid i hi hmi
  above := h.above

/-- The first element of a list with some property is the one at which the list splits. -/
theorem find?_eq {α : Type*} {l : List α} {q : α → Bool}
    (h : Separates (fun i => ∃ a, l[i]? = some a ∧ q a) 0 l.length n) : l.find? q = l[n]? := by
  cases hn : l[n]? with
  | none =>
    rw [List.find?_eq_none]
    intro a ha hq
    obtain ⟨i, hi, rfl⟩ := List.mem_iff_getElem.mp ha
    have hle := List.getElem?_eq_none_iff.mp hn
    exact h.below i (Nat.zero_le i) (hi.trans_le hle) ⟨_, List.getElem?_eq_getElem hi, hq⟩
  | some a =>
    obtain ⟨hlt, rfl⟩ := List.getElem?_eq_some_iff.mp hn
    rw [List.find?_eq_some_iff_getElem]
    obtain ⟨b, hb, hq⟩ := h.above n le_rfl hlt
    obtain rfl := Option.some.inj (hn.symm.trans hb)
    refine ⟨hq, n, hlt, rfl, fun i hi => ?_⟩
    rw [Bool.not_eq_true']
    exact Bool.eq_false_iff.mpr fun hqi =>
      h.below i (Nat.zero_le i) hi ⟨_, List.getElem?_eq_getElem (hi.trans hlt), hqi⟩

/-- **The last element without the property** is the one before. -/
theorem find?_reverse_eq {α : Type*} {l : List α} {q : α → Bool}
    (h : Separates (fun i => ∃ a, l[i]? = some a ∧ q a) 0 l.length n) :
    l.reverse.find? (fun a => !q a) = if n = 0 then none else l[n - 1]? := by
  have hle := h.le_high
  -- read from the back, the list splits at the same place
  have hrev : Separates (fun i => ∃ a, l.reverse[i]? = some a ∧ !q a) 0 l.reverse.length
      (l.length - n) := by
    rw [List.length_reverse]
    refine ⟨Nat.zero_le _, Nat.sub_le _ _, ?_, ?_⟩
    · rintro i - hi ⟨a, ha, hq⟩
      rw [List.getElem?_reverse (by omega)] at ha
      obtain ⟨b, hb, hqb⟩ := h.above (l.length - 1 - i) (by omega) (by omega)
      obtain rfl := Option.some.inj (ha.symm.trans hb)
      rw [hqb] at hq
      exact nomatch hq
    · intro i hi hlt
      have hget := List.getElem?_eq_getElem (l := l) (i := l.length - 1 - i) (by omega)
      refine ⟨_, (List.getElem?_reverse hlt).trans hget, ?_⟩
      rw [Bool.not_eq_true']
      exact Bool.eq_false_iff.mpr fun hq =>
        h.below (l.length - 1 - i) (Nat.zero_le _) (by omega) ⟨_, hget, hq⟩
  rw [hrev.find?_eq]
  split
  · rw [List.getElem?_eq_none_iff, List.length_reverse]
    omega
  · rw [List.getElem?_reverse (by omega)]
    congr 1
    omega

end Separates
