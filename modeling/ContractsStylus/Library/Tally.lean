import Mathlib.Algebra.BigOperators.Group.Finset.Basic
import Mathlib.Algebra.Order.BigOperators.Group.Finset
import Mathlib.Data.Fintype.BigOperators
import Mathlib.Tactic.Ring

/-!
# Totals of a table, and batches of entries

A table assigns a number to every key of a finite type. Bookkeeping code changes one entry at a
time and keeps a total beside the table; what has to be known is how far the total moves. A
batch is a list of entries to be added or subtracted one after the other, in which one key may
occur several times: `amount` is what the whole batch holds for one key.

## Writes in an order

A program moves an amount by two writes, and when the source is also the destination the second one
reads what the first one has written. `move` is defined by these two writes and not by cases, so
that its lemmas say what happens in that case rather than exclude it.

Subtraction of numbers is truncated. Every lemma about `move` either assumes that the amount is
there, or is true without; `le_move` and `le_move_add` are of the second kind.

## Reading through a function

Entries are read as numbers through a function `g`, so that the sum of a table of words is the sum
of the numbers that they stand for, and wraps nowhere. Whether a counter of words that is kept
beside the table equals that sum is for the user of this library to say.

## Main results

* `Tally.sum_update` — writing one entry moves the total by the difference
* `Tally.le_move`, `Tally.move_le`, `Tally.le_move_add` — how far a move changes one entry
* `Tally.sum_amount` — the amounts of a batch add up to the batch
-/

namespace Tally

variable {κ α : Type*} [DecidableEq κ]

/-! ### Writing one entry

The equation has the old and the new entry on different sides, so it holds whether the entry grew or
shrank. -/

/-- Writing one entry moves the total by the difference between the old entry and the new. The
entries are read through `g`, so that a table of words can be summed as numbers. -/
theorem sum_update [Fintype κ] (g : α → ℕ) (m : κ → α) (k : κ) (v : α) :
    ∑ x, g (Function.update m k v x) + g (m k) = ∑ x, g (m x) + g v := by
  have hupd : ∑ x, g (Function.update m k v x) = g v + ∑ x ∈ Finset.univ.erase k, g (m x) := by
    rw [← Finset.add_sum_erase Finset.univ _ (Finset.mem_univ k), Function.update_self]
    refine congrArg _ (Finset.sum_congr rfl fun x hx => ?_)
    rw [Function.update_of_ne (Finset.ne_of_mem_erase hx)]
  have hold : ∑ x, g (m x) = g (m k) + ∑ x ∈ Finset.univ.erase k, g (m x) :=
    (Finset.add_sum_erase Finset.univ (fun x => g (m x)) (Finset.mem_univ k)).symm
  omega

omit [DecidableEq κ] in
/-- One entry is at most the total. -/
theorem le_sum [Fintype κ] (f : κ → ℕ) (k : κ) : f k ≤ ∑ x, f x :=
  Finset.single_le_sum (fun _ _ => Nat.zero_le _) (Finset.mem_univ k)

/-! ### Moving an amount

`move_self` and `sum_move` need that the amount is there. The other lemmas look at one key and do
not. -/

/-- The table after moving `v` from one key to another. A move from a key to itself, or of more
than is there, is read as two writes in this order. -/
def move (f : κ → ℕ) (src dst : κ) (v : ℕ) : κ → ℕ :=
  let debited := Function.update f src (f src - v)
  Function.update debited dst (debited dst + v)

theorem move_self {f : κ → ℕ} {k : κ} {v : ℕ} (h : v ≤ f k) : move f k k v = f := by
  simp [move, Nat.sub_add_cancel h]

theorem move_src {f : κ → ℕ} {src dst : κ} {v : ℕ} (h : src ≠ dst) :
    move f src dst v src = f src - v := by
  simp [move, h]

theorem move_dst {f : κ → ℕ} {src dst : κ} {v : ℕ} (h : src ≠ dst) :
    move f src dst v dst = f dst + v := by
  simp [move, h.symm]

theorem move_of_ne {f : κ → ℕ} {src dst k : κ} {v : ℕ} (hs : k ≠ src) (hd : k ≠ dst) :
    move f src dst v k = f k := by
  simp [move, hs, hd]

/-- A key that nothing is moved from does not lose. -/
theorem le_move {f : κ → ℕ} {src dst k : κ} {v : ℕ} (h : k ≠ src) : f k ≤ move f src dst v k := by
  by_cases hd : k = dst
  · subst hd
    rw [move_dst h.symm]
    exact Nat.le_add_right ..
  · rw [move_of_ne h hd]

/-- No key gains more than what is moved. -/
theorem move_le {f : κ → ℕ} {src dst k : κ} {v : ℕ} (h : v ≤ f src) :
    move f src dst v k ≤ f k + v := by
  rcases eq_or_ne src dst with rfl | hne
  · rw [move_self h]
    exact Nat.le_add_right ..
  · rcases eq_or_ne k dst with rfl | hd
    · exact (move_dst hne).le
    · rcases eq_or_ne k src with rfl | hs
      · rw [move_src hne]
        omega
      · rw [move_of_ne hs hd]
        exact Nat.le_add_right ..

/-- No key loses more than what is moved. -/
theorem le_move_add {f : κ → ℕ} {src dst k : κ} {v : ℕ} :
    f k ≤ move f src dst v k + v := by
  rcases eq_or_ne k src with rfl | hs
  · rcases eq_or_ne k dst with rfl | hne
    · rw [move, Function.update_self, Function.update_self]
      omega
    · rw [move_src hne]
      omega
  · exact (le_move hs).trans (Nat.le_add_right ..)

/-- A move does not change the total. -/
theorem sum_move [Fintype κ] {f : κ → ℕ} {src : κ} {v : ℕ} (h : v ≤ f src) (dst : κ) :
    ∑ x, move f src dst v x = ∑ x, f x := by
  have hdebit := sum_update (fun n : ℕ => n) f src (f src - v)
  have hcredit := sum_update (fun n : ℕ => n) (Function.update f src (f src - v)) dst
    (Function.update f src (f src - v) dst + v)
  rw [move]
  omega

/-! ### Batches

A batch is a list, and `amount` is what it comes to for a key. A program that goes through a batch
does not see amounts; they are for the statements about it. -/

/-- What the entries of a batch hold for one key, all occurrences together. -/
def amount (l : List (κ × ℕ)) (k : κ) : ℕ := (l.map fun p => if p.1 = k then p.2 else 0).sum

@[simp] theorem amount_nil (k : κ) : amount ([] : List (κ × ℕ)) k = 0 := rfl

@[simp] theorem amount_cons (p : κ × ℕ) (l : List (κ × ℕ)) (k : κ) :
    amount (p :: l) k = (if p.1 = k then p.2 else 0) + amount l k := by
  simp [amount]

@[simp] theorem amount_append (l l' : List (κ × ℕ)) (k : κ) :
    amount (l ++ l') k = amount l k + amount l' k := by
  simp [amount]

/-- **The amounts of a batch, over all keys, add up to the batch.** -/
theorem sum_amount [Fintype κ] (l : List (κ × ℕ)) : ∑ k, amount l k = (l.map Prod.snd).sum := by
  induction l with
  | nil => simp
  | cons p l ih => simp [Finset.sum_add_distrib, ih]

/-- A table that grew by the amounts of a batch grew in total by the batch. -/
theorem sum_add_amount [Fintype κ] {f g : κ → ℕ} {l : List (κ × ℕ)}
    (h : ∀ k, g k = f k + amount l k) : ∑ k, g k = ∑ k, f k + (l.map Prod.snd).sum := by
  rw [Finset.sum_congr rfl fun k _ => h k, Finset.sum_add_distrib, sum_amount]

end Tally
