import Mathlib.Order.Nat

/-!
# Loops that end on a condition

A loop that runs its body while a condition holds. It is bounded by fuel, so that it computes, and
gives nothing when the fuel is used up; that it ends is shown by a measure. The body may itself
run out of fuel.

## Fuel

A loop that is defined by recursion on fuel is structural, so it can be evaluated, and it tells
apart to have ended from having used up its fuel. No theorem needs to say "if it ends": the rule
gives the result and says how much fuel is enough.

The invariant may hold more than a caller wants to know in the end. The conclusion repeats it,
together with the failure of the condition, and it is the caller who draws the consequence.

## Main definitions

* `whileLoop` — the loop

## Main results

* `whileLoop_total` — an invariant and a measure: the loop ends, with the invariant and without the
  condition
-/

namespace ContractsStylus

variable {σ : Type} {cond : σ → Bool} {body : σ → Option σ} {s : σ} {fuel : ℕ}

/-- Runs `body` while `cond` holds. -/
def whileLoop (cond : σ → Bool) (body : σ → Option σ) : ℕ → σ → Option σ
  | 0, _ => none
  | fuel + 1, s => if cond s then (body s).bind (whileLoop cond body fuel) else some s

/-- A loop whose condition does not hold does nothing. -/
theorem whileLoop_of_not (h : cond s = false) : whileLoop cond body (fuel + 1) s = some s := by
  rw [whileLoop, h]
  rfl

/-- **A loop with an invariant and a measure ends** when there is fuel for the measure. -/
theorem whileLoop_total {Inv : σ → Prop} {measure : σ → ℕ}
    (hbody : ∀ s, Inv s → cond s = true →
      ∃ s', body s = some s' ∧ Inv s' ∧ measure s' < measure s)
    (hs : Inv s) (hfuel : measure s < fuel) :
    ∃ s', whileLoop cond body fuel s = some s' ∧ Inv s' ∧ cond s' = false := by
  induction fuel generalizing s with
  | zero => exact absurd hfuel (Nat.not_lt_zero _)
  | succ fuel ih =>
    cases hcond : cond s with
    | false => exact ⟨s, whileLoop_of_not hcond, hs, hcond⟩
    | true =>
      obtain ⟨t, ht, hinv, hlt⟩ := hbody s hs hcond
      obtain ⟨s', hs', hdone⟩ := ih hinv (hlt.trans_le (Nat.lt_succ_iff.mp hfuel))
      refine ⟨s', ?_, hdone⟩
      rw [whileLoop, hcond, if_pos rfl, ht, Option.bind_some, hs']

end ContractsStylus
